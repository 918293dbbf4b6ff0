import Mathlib

/-!
# The account of one holder of a shared budget

The counters that several holders draw on, the leases one of them has, and what it turned into
consumption.  The others may change what they have out at any time, within what there is.

    l.Conserved limits → (l.interfere want).Conserved limits            (Conserved.interfere)
    l.Conserved limits → amount ≤ l.remaining k → (l.take k amount).Conserved limits
                                                                             (Conserved.take)
    l.Conserved limits → (k, amount) ∈ l.leases → used ≤ amount →
      (l.settle k amount used).Conserved limits                            (Conserved.settle)
-/

namespace Plenora.Lib

variable {κ : Type} [DecidableEq κ]

structure Ledger (κ : Type) where
  remaining : κ → Nat
  /-- What the other holders have out, leased or consumed. -/
  others : κ → Nat
  leases : List (κ × Nat)
  committed : κ → Nat

namespace Ledger

/-- What the leases of a kind hold. -/
def total (leases : List (κ × Nat)) (k : κ) : Nat :=
  ((leases.filter fun lease => lease.1 = k).map Prod.snd).sum

def held (l : Ledger κ) (k : κ) : Nat := total l.leases k

/-- All of a limit is somewhere. -/
def Conserved (limits : κ → Nat) (l : Ledger κ) : Prop :=
  ∀ k, l.remaining k + l.others k + l.held k + l.committed k = limits k

/-- The other holders come to have out what they want, as far as there is. -/
def interfere (want : κ → Nat) (l : Ledger κ) : Ledger κ :=
  { l with
    remaining := fun k => l.remaining k + l.others k - min (want k) (l.remaining k + l.others k)
    others := fun k => min (want k) (l.remaining k + l.others k) }

/-- A new lease. -/
def take (k : κ) (amount : Nat) (l : Ledger κ) : Ledger κ :=
  { l with
    remaining := Function.update l.remaining k (l.remaining k - amount)
    leases := (k, amount) :: l.leases }

/-- A lease ends: a part is consumed, the rest goes back. -/
def settle (k : κ) (amount used : Nat) (l : Ledger κ) : Ledger κ :=
  { l with
    remaining := Function.update l.remaining k (l.remaining k + (amount - used))
    leases := l.leases.erase (k, amount)
    committed := Function.update l.committed k (l.committed k + used) }

/-! ## Totals -/

@[simp] theorem total_nil (k : κ) : total ([] : List (κ × Nat)) k = 0 := rfl

theorem total_cons (lease : κ × Nat) (leases : List (κ × Nat)) (k : κ) :
    total (lease :: leases) k = (if lease.1 = k then lease.2 else 0) + total leases k := by
  unfold total
  by_cases h : lease.1 = k
  · rw [List.filter_cons_of_pos (by simpa using h), if_pos h, List.map_cons, List.sum_cons]
  · rw [List.filter_cons_of_neg (by simpa using h), if_neg h, Nat.zero_add]

theorem total_perm {leases leases' : List (κ × Nat)} (h : leases.Perm leases') (k : κ) :
    total leases k = total leases' k :=
  ((h.filter _).map _).sum_eq

theorem total_erase {lease : κ × Nat} {leases : List (κ × Nat)} (h : lease ∈ leases) (k : κ) :
    total leases k = (if lease.1 = k then lease.2 else 0) + total (leases.erase lease) k := by
  rw [total_perm (List.perm_cons_erase h) k, total_cons]

/-! ## Conservation -/

variable {limits : κ → Nat} {l : Ledger κ}

theorem Conserved.interfere (h : l.Conserved limits) (want : κ → Nat) :
    (l.interfere want).Conserved limits := by
  intro k
  have hk := h k
  have hmin := Nat.min_le_right (want k) (l.remaining k + l.others k)
  show l.remaining k + l.others k - min (want k) (l.remaining k + l.others k) +
    min (want k) (l.remaining k + l.others k) + l.held k + l.committed k = limits k
  omega

theorem Conserved.take (h : l.Conserved limits) {k : κ} {amount : Nat}
    (hle : amount ≤ l.remaining k) : (l.take k amount).Conserved limits := by
  intro k'
  have hk := h k'
  show Function.update l.remaining k (l.remaining k - amount) k' + l.others k' +
    total ((k, amount) :: l.leases) k' + l.committed k' = limits k'
  unfold held at hk
  rw [total_cons]
  by_cases heq : k' = k
  · subst heq
    rw [Function.update_self, if_pos rfl]
    dsimp only
    omega
  · rw [Function.update_of_ne heq, if_neg fun h => heq h.symm]
    omega

theorem Conserved.settle (h : l.Conserved limits) {k : κ} {amount used : Nat}
    (hmem : (k, amount) ∈ l.leases) (hused : used ≤ amount) :
    (l.settle k amount used).Conserved limits := by
  intro k'
  have hk := h k'
  show Function.update l.remaining k (l.remaining k + (amount - used)) k' + l.others k' +
    total (l.leases.erase (k, amount)) k' +
      Function.update l.committed k (l.committed k + used) k' = limits k'
  unfold held at hk
  rw [total_erase hmem k'] at hk
  by_cases heq : k' = k
  · subst heq
    rw [if_pos rfl] at hk
    rw [Function.update_self, Function.update_self]
    dsimp only at hk
    omega
  · rw [if_neg fun h => heq h.symm] at hk
    rw [Function.update_of_ne heq, Function.update_of_ne heq]
    omega

/-- What a lease holds can go back. -/
theorem Conserved.room (h : l.Conserved limits) {k : κ} {amount : Nat}
    (hmem : (k, amount) ∈ l.leases) : l.remaining k + amount ≤ limits k := by
  have hk := h k
  unfold held at hk
  rw [total_erase hmem k, if_pos rfl] at hk
  dsimp only at hk
  omega

omit [DecidableEq κ] in
/-- Holders that want what they have change nothing. -/
theorem interfere_of_content {want : κ → Nat} {k : κ} (h : want k = l.others k) :
    (l.interfere want).others k = l.others k ∧ (l.interfere want).remaining k = l.remaining k := by
  unfold interfere
  dsimp only
  rw [h]
  omega

end Ledger

end Plenora.Lib
