import Mathlib

/-!
# Loops over a stack of pending work

`while let Some(node) = stack.pop()`: a node is taken, visited and replaced by
the nodes its visit pushes.  Each visit spends the weight of its node
from a budget.  The visit of a node sees neither the stack nor what was spent, so
the outcome is a property of the trees under the pending nodes:

    run budget exceeded bag spent = .ok ()  ↔  bag = [] ∨
      (∀ n ∈ bag, Clean n) ∧ spent + Σ total ≤ budget                (run_eq_ok)

and no order of taking the pending nodes changes it (`runBy_eq_ok`).
-/

namespace Plenora.Lib

/-- A loop over pending nodes: the visit of a node and what it spends.  No node
pushes others for ever. -/
structure WorkStack (ν ε : Type) where
  visit : ν → Except ε (List ν)
  weight : ν → Nat
  wf : WellFounded fun c n => ∃ pushed, visit n = .ok pushed ∧ c ∈ pushed

namespace WorkStack

variable {ν ε : Type}

/-! ## The tree under a node -/

/-- The nodes the visit of `n` pushes, none when it refuses. -/
def pushed (loop : WorkStack ν ε) (n : ν) : List ν :=
  match loop.visit n with
  | .ok pushed => pushed
  | .error _ => []

theorem pushed_eq (loop : WorkStack ν ε) {n : ν} {pushed : List ν}
    (h : loop.visit n = .ok pushed) : loop.pushed n = pushed := by
  unfold WorkStack.pushed
  rw [h]

theorem exists_visit (loop : WorkStack ν ε) {n c : ν} (h : c ∈ loop.pushed n) :
    ∃ pushed, loop.visit n = .ok pushed ∧ c ∈ pushed := by
  unfold WorkStack.pushed at h
  split at h
  next pushed hvisit => exact ⟨pushed, hvisit, h⟩
  next => cases h

/-- The sum of `f` over the tree under a node. -/
def sumOver (loop : WorkStack ν ε) (f : ν → Nat) (n : ν) : Nat :=
  f n + ((loop.pushed n).attach.map fun c => loop.sumOver f c.1).sum
termination_by loop.wf.wrap n
decreasing_by exact loop.exists_visit c.2

theorem sumOver_eq (loop : WorkStack ν ε) (f : ν → Nat) (n : ν) :
    loop.sumOver f n = f n + ((loop.pushed n).map (loop.sumOver f)).sum := by
  have hmap : (loop.pushed n).attach.map (fun c => loop.sumOver f c.1) =
      (loop.pushed n).map (loop.sumOver f) := by
    simp
  rw [sumOver, hmap]

/-- What the nodes of the tree spend together. -/
def total (loop : WorkStack ν ε) (n : ν) : Nat := loop.sumOver loop.weight n

/-- The number of nodes of the tree. -/
def turns (loop : WorkStack ν ε) (n : ν) : Nat := loop.sumOver (fun _ => 1) n

/-- Every visit in the tree under the node is accepted. -/
inductive Clean (loop : WorkStack ν ε) : ν → Prop
  | intro (n : ν) (pushed : List ν) : loop.visit n = .ok pushed →
      (∀ c ∈ pushed, Clean loop c) → Clean loop n

theorem clean_iff (loop : WorkStack ν ε) (n : ν) :
    loop.Clean n ↔ ∃ pushed, loop.visit n = .ok pushed ∧ ∀ c ∈ pushed, loop.Clean c := by
  constructor
  · rintro ⟨_, pushed, hvisit, hclean⟩
    exact ⟨pushed, hvisit, hclean⟩
  · rintro ⟨pushed, hvisit, hclean⟩
    exact .intro n pushed hvisit hclean

/-- Induction along the nodes pushed. -/
theorem tree_induction (loop : WorkStack ν ε) {motive : ν → Prop}
    (step : ∀ n, (∀ c ∈ loop.pushed n, motive c) → motive n) (n : ν) : motive n := by
  induction n using loop.wf.induction with
  | h n ih => exact step n fun c hc => ih c (loop.exists_visit hc)

/-! ## The loop -/

theorem turns_sum_lt (loop : WorkStack ν ε) {n : ν} {pushed : List ν} (rest : List ν)
    (h : loop.visit n = .ok pushed) :
    ((pushed.reverse ++ rest).map loop.turns).sum < loop.turns n + (rest.map loop.turns).sum := by
  have hturns : loop.turns n = 1 + (pushed.map loop.turns).sum := by
    rw [turns, sumOver_eq, loop.pushed_eq h]
    rfl
  rw [List.map_append, List.sum_append, List.map_reverse, List.sum_reverse, hturns]
  omega

/-- **The loop**: the head of the list is the top of the stack. -/
def run (loop : WorkStack ν ε) (budget : Nat) (exceeded : ε) : List ν → Nat → Except ε Unit
  | [], _ => .ok ()
  | n :: rest, spent =>
    match _h : loop.visit n with
    | .error e => .error e
    | .ok pushed =>
      if budget < spent + loop.weight n then .error exceeded
      else loop.run budget exceeded (pushed.reverse ++ rest) (spent + loop.weight n)
termination_by stack => (stack.map loop.turns).sum
decreasing_by
  simp only [List.unattach_reverse, List.unattach_attach, List.map_cons, List.sum_cons]
  exact loop.turns_sum_lt rest _h

/-- The pending node at position `k`, counted around the list, and the others. -/
def takeAt (bag : List ν) (k : Nat) : Option (ν × List ν) :=
  match bag with
  | [] => none
  | n :: rest => some ((n :: rest).get ⟨k % (rest.length + 1), Nat.mod_lt _ (Nat.succ_pos _)⟩,
      (n :: rest).eraseIdx (k % (rest.length + 1)))

theorem takeAt_eq_none {bag : List ν} {k : Nat} (h : takeAt bag k = none) : bag = [] := by
  cases bag with
  | nil => rfl
  | cons n rest => cases h

theorem takeAt_perm {bag rest : List ν} {k : Nat} {n : ν} (h : takeAt bag k = some (n, rest)) :
    (n :: rest).Perm bag := by
  cases bag with
  | nil => cases h
  | cons m others =>
    simp only [takeAt, Option.some.injEq, Prod.mk.injEq] at h
    obtain ⟨rfl, rfl⟩ := h
    exact List.getElem_cons_eraseIdx_perm _

/-- The loop that takes its nodes in the order `pick` says, by the pending nodes
and what was spent. -/
def runBy (loop : WorkStack ν ε) (budget : Nat) (exceeded : ε) (pick : List ν → Nat → Nat)
    (bag : List ν) (spent : Nat) : Except ε Unit :=
  match _htake : takeAt bag (pick bag spent) with
  | none => .ok ()
  | some (n, rest) =>
    match _h : loop.visit n with
    | .error e => .error e
    | .ok pushed =>
      if budget < spent + loop.weight n then .error exceeded
      else loop.runBy budget exceeded pick (pushed.reverse ++ rest) (spent + loop.weight n)
termination_by (bag.map loop.turns).sum
decreasing_by
  have hsum := ((takeAt_perm _htake).map loop.turns).sum_eq
  rw [List.map_cons, List.sum_cons] at hsum
  rw [← hsum]
  exact loop.turns_sum_lt rest _h

section Equations

variable (loop : WorkStack ν ε) {budget spent : Nat} {exceeded e : ε} {n : ν}
  {pushed rest bag : List ν} {pick : List ν → Nat → Nat}

theorem run_refused (h : loop.visit n = .error e) :
    loop.run budget exceeded (n :: rest) spent = .error e := by
  rw [run]
  split
  next e' hvisit => rw [h] at hvisit; cases hvisit; rfl
  next pushed hvisit => rw [h] at hvisit; cases hvisit

theorem run_visited (h : loop.visit n = .ok pushed) :
    loop.run budget exceeded (n :: rest) spent =
      if budget < spent + loop.weight n then .error exceeded
      else loop.run budget exceeded (pushed.reverse ++ rest) (spent + loop.weight n) := by
  rw [run]
  split
  next e hvisit => rw [h] at hvisit; cases hvisit
  next pushed' hvisit => rw [h] at hvisit; cases hvisit; rfl

theorem runBy_refused (htake : takeAt bag (pick bag spent) = some (n, rest))
    (h : loop.visit n = .error e) : loop.runBy budget exceeded pick bag spent = .error e := by
  rw [runBy]
  split
  next hnone => rw [htake] at hnone; cases hnone
  next n' rest' hsome =>
    rw [htake] at hsome
    cases hsome
    split
    next e' hvisit => rw [h] at hvisit; cases hvisit; rfl
    next pushed hvisit => rw [h] at hvisit; cases hvisit

theorem runBy_visited (htake : takeAt bag (pick bag spent) = some (n, rest))
    (h : loop.visit n = .ok pushed) :
    loop.runBy budget exceeded pick bag spent =
      if budget < spent + loop.weight n then .error exceeded
      else loop.runBy budget exceeded pick (pushed.reverse ++ rest) (spent + loop.weight n) := by
  rw [runBy]
  split
  next hnone => rw [htake] at hnone; cases hnone
  next n' rest' hsome =>
    rw [htake] at hsome
    cases hsome
    split
    next e hvisit => rw [h] at hvisit; cases hvisit
    next pushed' hvisit => rw [h] at hvisit; cases hvisit; rfl

end Equations

/-- The loop, stopped after `turns` turns. -/
def runWithin (loop : WorkStack ν ε) (budget : Nat) (exceeded : ε) :
    (turns : Nat) → List ν → Nat → Option (Except ε Unit)
  | 0, _, _ => none
  | _ + 1, [], _ => some (.ok ())
  | turns + 1, n :: rest, spent =>
    match loop.visit n with
    | .error e => some (.error e)
    | .ok pushed =>
      if budget < spent + loop.weight n then some (.error exceeded)
      else loop.runWithin budget exceeded turns (pushed.reverse ++ rest) (spent + loop.weight n)

/-- A loop that ends within some turns can be evaluated. -/
theorem run_of_runWithin (loop : WorkStack ν ε) {budget turns spent : Nat} {exceeded : ε}
    {stack : List ν} {r : Except ε Unit}
    (h : loop.runWithin budget exceeded turns stack spent = some r) :
    loop.run budget exceeded stack spent = r := by
  induction turns generalizing stack spent with
  | zero => cases h
  | succ turns ih =>
    cases stack with
    | nil =>
      rw [run]
      simpa [runWithin] using h
    | cons n rest =>
      cases hvisit : loop.visit n with
      | error e =>
        rw [run_refused loop hvisit]
        simpa [runWithin, hvisit] using h
      | ok pushed =>
        rw [run_visited loop hvisit]
        simp only [runWithin, hvisit] at h
        split
        next hover => simpa [hover] using h
        next hover =>
          rw [if_neg hover] at h
          exact ih h

/-- What is asked of the pending nodes. -/
def Fits (loop : WorkStack ν ε) (budget : Nat) (bag : List ν) (spent : Nat) : Prop :=
  bag = [] ∨ (∀ n ∈ bag, loop.Clean n) ∧ spent + (bag.map loop.total).sum ≤ budget

theorem fits_perm (loop : WorkStack ν ε) {budget spent : Nat} {bag bag' : List ν}
    (h : bag.Perm bag') : loop.Fits budget bag spent ↔ loop.Fits budget bag' spent := by
  have hsum := (h.map loop.total).sum_eq
  have hclean : (∀ n ∈ bag, loop.Clean n) ↔ ∀ n ∈ bag', loop.Clean n :=
    forall_congr' fun n => by rw [h.mem_iff]
  have hnil : bag = [] ↔ bag' = [] :=
    ⟨fun hbag => (hbag ▸ h).nil_eq.symm, fun hbag => (hbag ▸ h).eq_nil⟩
  unfold Fits
  rw [hsum, hclean, hnil]

/-- A refused visit leaves nothing that fits. -/
theorem not_fits_of_refused (loop : WorkStack ν ε) {budget spent : Nat} {n : ν} {rest : List ν}
    {e : ε} (h : loop.visit n = .error e) : ¬ loop.Fits budget (n :: rest) spent := by
  rintro (hnil | ⟨hclean, -⟩)
  · cases hnil
  · obtain ⟨pushed, hvisit, -⟩ := (loop.clean_iff n).1 (hclean n (List.mem_cons_self ..))
    rw [h] at hvisit
    cases hvisit

/-- One turn: within the budget, a node fits when what its visit pushes fits. -/
theorem fits_step (loop : WorkStack ν ε) {budget spent : Nat} {n : ν} {pushed rest : List ν}
    (h : loop.visit n = .ok pushed) :
    loop.Fits budget (n :: rest) spent ↔ spent + loop.weight n ≤ budget ∧
      loop.Fits budget (pushed.reverse ++ rest) (spent + loop.weight n) := by
  have htotal : loop.total n = loop.weight n + (pushed.map loop.total).sum := by
    rw [total, sumOver_eq, loop.pushed_eq h]
    rfl
  have hsum : ((pushed.reverse ++ rest).map loop.total).sum =
      (pushed.map loop.total).sum + (rest.map loop.total).sum := by
    rw [List.map_append, List.sum_append, List.map_reverse, List.sum_reverse]
  have hclean : (∀ m ∈ n :: rest, loop.Clean m) ↔ ∀ m ∈ pushed.reverse ++ rest, loop.Clean m := by
    have hn : loop.Clean n ↔ ∀ c ∈ pushed, loop.Clean c := by
      rw [loop.clean_iff n]
      constructor
      · rintro ⟨pushed', hvisit, hpushed⟩
        rw [h] at hvisit
        cases hvisit
        exact hpushed
      · exact fun hpushed => ⟨pushed, h, hpushed⟩
    simp only [List.forall_mem_cons, List.forall_mem_append, List.mem_reverse, hn]
  unfold Fits
  rw [hclean, hsum, List.map_cons, List.sum_cons, htotal]
  constructor
  · rintro (hnil | ⟨hall, hle⟩)
    · cases hnil
    · exact ⟨by omega, .inr ⟨hall, by omega⟩⟩
  · rintro ⟨hle, hnil | ⟨hall, hsum⟩⟩
    · refine .inr ⟨by simp [hnil], ?_⟩
      obtain ⟨hpushed, hrest⟩ := List.append_eq_nil_iff.1 hnil
      rw [List.reverse_eq_nil_iff.1 hpushed, hrest]
      exact hle
    · exact .inr ⟨hall, by omega⟩

/-- **Whatever the order, the loop ends well exactly when the pending nodes fit.** -/
theorem runBy_eq_ok (loop : WorkStack ν ε) (budget : Nat) (exceeded : ε)
    (pick : List ν → Nat → Nat) (bag : List ν) (spent : Nat) :
    loop.runBy budget exceeded pick bag spent = .ok () ↔ loop.Fits budget bag spent := by
  induction bag, spent using runBy.induct loop budget pick with
  | case1 bag spent htake =>
    rw [runBy, htake]
    exact ⟨fun _ => .inl (takeAt_eq_none htake), fun _ => rfl⟩
  | case2 bag spent n rest htake e h =>
    rw [runBy_refused loop htake h, ← loop.fits_perm (takeAt_perm htake)]
    exact iff_of_false (fun hrun => by cases hrun) (loop.not_fits_of_refused h)
  | case3 bag spent n rest htake pushed h hover =>
    rw [runBy_visited loop htake h, if_pos hover, ← loop.fits_perm (takeAt_perm htake),
      loop.fits_step h]
    constructor
    · intro hrun
      cases hrun
    · rintro ⟨hle, -⟩
      omega
  | case4 bag spent n rest htake pushed h hover ih =>
    rw [runBy_visited loop htake h, if_neg hover, ih, ← loop.fits_perm (takeAt_perm htake),
      loop.fits_step h]
    exact ⟨fun hfits => ⟨by omega, hfits⟩, fun hfits => hfits.2⟩

/-- **The loop ends well exactly when the pending nodes fit.** -/
theorem run_eq_ok (loop : WorkStack ν ε) (budget : Nat) (exceeded : ε) (stack : List ν)
    (spent : Nat) :
    loop.run budget exceeded stack spent = .ok () ↔ loop.Fits budget stack spent := by
  induction stack, spent using run.induct loop budget with
  | case1 spent =>
    rw [run]
    exact ⟨fun _ => .inl rfl, fun _ => rfl⟩
  | case2 n rest spent e h =>
    rw [run_refused loop h]
    exact iff_of_false (fun hrun => by cases hrun) (loop.not_fits_of_refused h)
  | case3 n rest spent pushed h hover =>
    rw [run_visited loop h, if_pos hover, loop.fits_step h]
    constructor
    · intro hrun
      cases hrun
    · rintro ⟨hle, -⟩
      omega
  | case4 n rest spent pushed h hover ih =>
    simp only [List.unattach_reverse, List.unattach_attach] at ih
    rw [run_visited loop h, if_neg hover, ih, loop.fits_step h]
    exact ⟨fun hfits => ⟨by omega, hfits⟩, fun hfits => hfits.2⟩

/-- A loop whose nodes spend nothing asks for clean nodes only. -/
theorem run_free_eq_ok (loop : WorkStack ν ε) (hfree : ∀ n, loop.weight n = 0) (exceeded : ε)
    (stack : List ν) :
    loop.run 0 exceeded stack 0 = .ok () ↔ ∀ n ∈ stack, loop.Clean n := by
  have htotal : ∀ n, loop.total n = 0 := by
    intro n
    induction n using loop.tree_induction with
    | step n ih =>
      have hmap : (loop.pushed n).map loop.total = (loop.pushed n).map fun _ => 0 :=
        List.map_congr_left ih
      rw [total, sumOver_eq, hfree n]
      show 0 + ((loop.pushed n).map loop.total).sum = 0
      rw [hmap]
      simp
  have hsum : (stack.map loop.total).sum = 0 := by
    rw [List.map_congr_left fun n _ => htotal n]
    simp
  rw [run_eq_ok, Fits, hsum]
  constructor
  · rintro (rfl | ⟨hclean, -⟩)
    · simp
    · exact hclean
  · exact fun hclean => .inr ⟨hclean, Nat.le_refl 0⟩

end WorkStack

end Plenora.Lib
