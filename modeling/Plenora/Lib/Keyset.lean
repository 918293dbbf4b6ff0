import Mathlib

/-!
# Keyset order: resuming an ordered list after one of its rows

Rows are ordered by the columns of a key, the first that differs deciding.  A
keyset condition looks at the same columns through what a filter can see: where
a row agrees with the checkpoint row (`same`) and where it comes later
(`after`).  The condition is sound when it claims nothing else; it then selects
exactly the rows it can place after the checkpoint:

    Sound c ks → follows ks r → lexCompare (ks.map (·.compare)) c r = .lt       (follows_lt)
    Sound c ks → lexCompare … c r = .lt → (follows ks r ↔ decided c ks r)  (follows_iff_decided)
    before ++ [c] ++ rows.filter p = rows ↔ ∀ r ∈ after, p r                (append_filter_iff)

Filtering commutes with sorting when no two rows compare equal (`sorted_filter`).
-/

namespace Plenora.Lib.Keyset

variable {ρ : Type}

/-- One column of a key: how it orders rows, and what the condition sees of it. -/
structure Column (ρ : Type) where
  compare : ρ → ρ → Ordering
  same : ρ → Prop
  after : ρ → Prop

/-- The order of a list of columns: the first that tells the rows apart decides. -/
def lexCompare : List (ρ → ρ → Ordering) → ρ → ρ → Ordering
  | [] => fun _ _ => .eq
  | κ :: κs => compareLex κ (lexCompare κs)

/-- The condition: the rows agree on some leading columns and the next one comes later. -/
def follows : List (Column ρ) → ρ → Prop
  | [], _ => False
  | k :: ks, r => k.after r ∨ (k.same r ∧ follows ks r)

/-- In the first column where `r` differs from `c`, the condition sees `r` come later. -/
def decided (c : ρ) : List (Column ρ) → ρ → Prop
  | [], _ => True
  | k :: ks, r => if k.compare c r = .eq then decided c ks r else k.after r

/-- The condition claims only what the order says of `c`. -/
def Sound (c : ρ) (ks : List (Column ρ)) : Prop :=
  ∀ k ∈ ks, (∀ r, k.same r ↔ k.compare c r = .eq) ∧ ∀ r, k.after r → k.compare c r = .lt

/-! ## The order -/

theorem lexCompare_trans {κs : List (ρ → ρ → Ordering)} (h : ∀ κ ∈ κs, Std.TransCmp κ) :
    Std.TransCmp (lexCompare κs) := by
  induction κs with
  | nil => exact { eq_swap := rfl, isLE_trans := fun _ _ => rfl }
  | cons κ κs ih =>
    have := h κ List.mem_cons_self
    have := ih fun κ' hκ' => h κ' (List.mem_cons_of_mem _ hκ')
    exact inferInstanceAs (Std.TransCmp (compareLex κ (lexCompare κs)))

theorem lexCompare_cons (κ : ρ → ρ → Ordering) (κs : List (ρ → ρ → Ordering)) (a b : ρ) :
    lexCompare (κ :: κs) a b = (κ a b).then (lexCompare κs a b) := rfl

/-- A comparison extended to missing values, all of them before or after the others. -/
def nullsCompare {α : Type} (isNull : α → Bool) (nullsLast : Bool) (cmp : α → α → Ordering)
    (a b : α) : Ordering :=
  match isNull a, isNull b with
  | true, true => .eq
  | true, false => if nullsLast then .gt else .lt
  | false, true => if nullsLast then .lt else .gt
  | false, false => cmp a b

theorem nullsCompare_trans {α : Type} (isNull : α → Bool) (nullsLast : Bool)
    (cmp : α → α → Ordering) [Std.TransCmp cmp] :
    Std.TransCmp (nullsCompare isNull nullsLast cmp) where
  eq_swap {a b} := by
    have : cmp a b = (cmp b a).swap := Std.OrientedCmp.eq_swap
    unfold nullsCompare
    cases isNull a <;> cases isNull b <;> cases nullsLast <;> simp [this]
  isLE_trans {a b c} := by
    have : (cmp a b).isLE → (cmp b c).isLE → (cmp a c).isLE := Std.TransCmp.isLE_trans
    unfold nullsCompare
    cases isNull a <;> cases isNull b <;> cases isNull c <;> cases nullsLast <;> simp_all

/-! ## Sorting -/

/-- The rows in the order of `κ`. -/
def sorted (κ : ρ → ρ → Ordering) (l : List ρ) : List ρ := l.insertionSort fun a b => κ a b ≠ .gt

theorem swap_eq (κ : ρ → ρ → Ordering) [Std.OrientedCmp κ] (a b : ρ) : κ a b = (κ b a).swap :=
  Std.OrientedCmp.eq_swap

theorem sorted_perm (κ : ρ → ρ → Ordering) (l : List ρ) : (sorted κ l).Perm l :=
  List.perm_insertionSort _ l

theorem sorted_pairwise (κ : ρ → ρ → Ordering) [Std.TransCmp κ] (l : List ρ) :
    (sorted κ l).Pairwise fun a b => κ a b ≠ .gt := by
  have htotal : Std.Total (fun a b : ρ => κ a b ≠ .gt) := ⟨fun a b => by
    rw [swap_eq κ b a]
    cases κ a b <;> simp⟩
  have htrans : IsTrans ρ (fun a b : ρ => κ a b ≠ .gt) := ⟨fun a b c hab hbc => by
    have hle (o : Ordering) : o ≠ .gt ↔ o.isLE := Ordering.ne_gt_iff_isLE
    rw [hle] at hab hbc ⊢
    exact Std.TransCmp.isLE_trans hab hbc⟩
  exact List.pairwise_insertionSort _ l

/-- Rows of which no two compare equal are strictly ordered. -/
theorem sorted_strict (κ : ρ → ρ → Ordering) [Std.TransCmp κ] {l : List ρ}
    (hne : l.Pairwise fun a b => κ a b ≠ .eq) :
    (sorted κ l).Pairwise fun a b => κ a b = .lt := by
  have hne' : (sorted κ l).Pairwise fun a b => κ a b ≠ .eq := by
    refine (sorted_perm κ l).symm.pairwise hne fun {a b} h => ?_
    rw [swap_eq κ]
    cases hc : κ a b <;> simp_all
  refine ((sorted_pairwise κ l).and hne').imp fun {a b} h => ?_
  cases hc : κ a b <;> simp_all

theorem sorted_filter (κ : ρ → ρ → Ordering) [Std.TransCmp κ] {l : List ρ} (p : ρ → Bool)
    (hne : l.Pairwise fun a b => κ a b ≠ .eq) :
    sorted κ (l.filter p) = (sorted κ l).filter p := by
  have hperm : (sorted κ (l.filter p)).Perm ((sorted κ l).filter p) :=
    (sorted_perm κ _).trans ((sorted_perm κ l).filter p).symm
  refine List.Perm.eq_of_pairwise (fun a b _ _ hab hba => ?_)
    (sorted_strict κ (hne.filter p)) ((sorted_strict κ hne).filter p) hperm
  rw [swap_eq κ, hab] at hba
  simp at hba

/-! ## The condition -/

theorem Sound.tail {c : ρ} {k : Column ρ} {ks : List (Column ρ)} (h : Sound c (k :: ks)) :
    Sound c ks := fun k' hk' => h k' (List.mem_cons_of_mem _ hk')

theorem follows_lt {c r : ρ} {ks : List (Column ρ)} (hs : Sound c ks) (h : follows ks r) :
    lexCompare (ks.map (·.compare)) c r = .lt := by
  induction ks with
  | nil => exact h.elim
  | cons k ks ih =>
    obtain ⟨hsame, hafter⟩ := hs k List.mem_cons_self
    rw [List.map_cons, lexCompare_cons]
    rcases h with h | ⟨h, hrest⟩
    · rw [hafter r h]
      rfl
    · rw [(hsame r).1 h, ih hs.tail hrest]
      rfl

theorem follows_iff_decided {c r : ρ} {ks : List (Column ρ)} (hs : Sound c ks)
    (hlt : lexCompare (ks.map (·.compare)) c r = .lt) : follows ks r ↔ decided c ks r := by
  induction ks with
  | nil => simp [lexCompare] at hlt
  | cons k ks ih =>
    obtain ⟨hsame, hafter⟩ := hs k List.mem_cons_self
    rw [List.map_cons, lexCompare_cons] at hlt
    simp only [follows, decided]
    split
    next heq =>
      have hno : ¬ k.after r := fun h => by simp [hafter r h] at heq
      rw [heq] at hlt
      simp only [hno, false_or, (hsame r).2 heq, true_and]
      exact ih hs.tail hlt
    next hne =>
      have hns : ¬ k.same r := fun h => hne ((hsame r).1 h)
      simp [hns]

/-- The condition column by column: some column comes later and all before it agree. -/
theorem follows_iff_exists {r : ρ} {ks : List (Column ρ)} :
    follows ks r ↔ ∃ (i : Nat) (k : Column ρ), ks[i]? = some k ∧ k.after r ∧
      ∀ j < i, ∀ k' : Column ρ, ks[j]? = some k' → k'.same r := by
  induction ks with
  | nil => simp [follows]
  | cons k ks ih =>
    rw [follows, ih]
    constructor
    · rintro (h | ⟨hsame, i, k', hi, hafter, hbefore⟩)
      · exact ⟨0, k, rfl, h, fun j hj => absurd hj (Nat.not_lt_zero j)⟩
      · refine ⟨i + 1, k', by simpa using hi, hafter, fun j hj k'' hk'' => ?_⟩
        cases j with
        | zero =>
          obtain rfl : k = k'' := by simpa using hk''
          exact hsame
        | succ j => exact hbefore j (by omega) k'' (by simpa using hk'')
    · rintro ⟨i, k', hi, hafter, hbefore⟩
      cases i with
      | zero =>
        obtain rfl : k = k' := by simpa using hi
        exact Or.inl hafter
      | succ i =>
        refine Or.inr ⟨hbefore 0 (by omega) k rfl, i, k', by simpa using hi, hafter, ?_⟩
        intro j hj k'' hk''
        exact hbefore (j + 1) (by omega) k'' (by simpa using hk'')

/-! ## The ordered list -/

/-- In a strictly ordered list, what comes after a row is what compares greater. -/
theorem mem_after_iff {κ : ρ → ρ → Ordering} [Std.OrientedCmp κ] {before after : List ρ} {c : ρ}
    (hord : (before ++ c :: after).Pairwise (fun a b => κ a b = .lt)) (r : ρ) :
    r ∈ after ↔ r ∈ before ++ c :: after ∧ κ c r = .lt := by
  obtain ⟨-, hright, hcross⟩ := List.pairwise_append.1 hord
  constructor
  · intro hr
    exact ⟨by simp [hr], (List.pairwise_cons.1 hright).1 r hr⟩
  · rintro ⟨hr, hlt⟩
    rcases List.mem_append.1 hr with hr | hr
    · have := hcross r hr c List.mem_cons_self
      rw [swap_eq κ, hlt] at this
      cases this
    · rcases List.mem_cons.1 hr with rfl | hr
      · simp [Std.ReflCmp.compare_self] at hlt
      · exact hr

/-- What a filter adds after `c`, when it selects only rows that come after `c` in a strictly
ordered list: the rest of the list exactly when it selects all of it. -/
theorem append_filter_iff {κ : ρ → ρ → Ordering} [Std.OrientedCmp κ] {before after : List ρ}
    {c : ρ} {p : ρ → Bool} (hord : (before ++ c :: after).Pairwise (fun a b => κ a b = .lt))
    (hp : ∀ r ∈ before ++ c :: after, p r → κ c r = .lt) :
    before ++ [c] ++ (before ++ c :: after).filter p = before ++ c :: after ↔
      ∀ r ∈ after, p r := by
  obtain ⟨-, hright, hcross⟩ := List.pairwise_append.1 hord
  have hself : p c = false := by
    by_contra hpc
    have := hp c (by simp) (by simpa using hpc)
    simp [Std.ReflCmp.compare_self] at this
  have hbefore : before.filter p = [] := by
    rw [List.filter_eq_nil_iff]
    intro r hr hpr
    have h₁ := hcross r hr c List.mem_cons_self
    have h₂ := hp r (by simp [hr]) hpr
    rw [swap_eq κ, h₁] at h₂
    simp at h₂
  have hfilter : (before ++ c :: after).filter p = after.filter p := by
    rw [List.filter_append, hbefore, List.filter_cons, hself]
    simp
  rw [hfilter, List.append_assoc, List.append_cancel_left_eq, List.singleton_append,
    List.cons.injEq, List.filter_eq_self]
  simp

end Plenora.Lib.Keyset
