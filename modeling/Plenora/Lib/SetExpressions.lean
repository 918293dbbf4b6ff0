import Mathlib

/-!
# Set expressions over bags of rows

`UNION`, `INTERSECT` and `EXCEPT`, distinct or `ALL`, over multisets.  A chain of
operations is read either from left to right or by the standard grammar, where an
`INTERSECT` binds tighter than a `UNION` or an `EXCEPT`:

    expression ::= term   ((UNION | EXCEPT) term)*
    term       ::= operand (INTERSECT operand)*

The two readings build the same tree when the `INTERSECT`s come first
(`byPrecedence_eq_leftToRight`); otherwise some operands tell them apart
(`exists_readings_differ`).
-/

namespace Plenora.Lib.SetExpressions

inductive SetOperator where
  | union | intersect | except
  deriving DecidableEq, Repr

/-- One operation of a chain. -/
structure Step (α : Type) where
  operator : SetOperator
  all : Bool
  operand : α

inductive SetTree (α : Type) where
  | leaf (a : α)
  | node (operator : SetOperator) (all : Bool) (left right : SetTree α)

section Readings

variable {α : Type}

namespace Step

/-- The operation without its operand. -/
def shape (s : Step α) : SetOperator × Bool := (s.operator, s.all)

def isIntersect (s : Step α) : Bool := s.operator == .intersect

theorem isIntersect_iff {s : Step α} : s.isIntersect = true ↔ s.operator = .intersect := beq_iff_eq

/-- The operation with another operand. -/
def on {β : Type} (b : β) (s : Step α) : Step β := ⟨s.operator, s.all, b⟩

end Step

theorem operator_of_mem_takeWhile {s : Step α} {steps : List (Step α)}
    (h : s ∈ steps.takeWhile Step.isIntersect) : s.operator = .intersect :=
  Step.isIntersect_iff.1 (List.mem_takeWhile_imp h)

/-- The chain applied from left to right. -/
def leftToRight (t : SetTree α) (steps : List (Step α)) : SetTree α :=
  steps.foldl (fun t s => .node s.operator s.all t (.leaf s.operand)) t

/-- An expression after its first term. -/
def additive (t : SetTree α) : List (Step α) → SetTree α
  | [] => t
  | s :: steps =>
    additive (.node s.operator s.all t
        (leftToRight (.leaf s.operand) (steps.takeWhile Step.isIntersect)))
      (steps.dropWhile Step.isIntersect)
termination_by steps => steps.length
decreasing_by
  have := (List.dropWhile_suffix Step.isIntersect (l := steps)).length_le
  simp
  omega

/-- The chain read by the standard grammar. -/
def byPrecedence (t : SetTree α) (steps : List (Step α)) : SetTree α :=
  additive (leftToRight t (steps.takeWhile Step.isIntersect)) (steps.dropWhile Step.isIntersect)

/-- No `INTERSECT` comes after a `UNION` or an `EXCEPT`. -/
def IntersectsFirst (steps : List (Step α)) : Prop :=
  ∀ s ∈ steps.dropWhile Step.isIntersect, s.isIntersect = false

instance (steps : List (Step α)) : Decidable (IntersectsFirst steps) :=
  inferInstanceAs (Decidable (∀ s ∈ steps.dropWhile Step.isIntersect, s.isIntersect = false))

theorem additive_eq_leftToRight (t : SetTree α) (steps : List (Step α))
    (h : ∀ s ∈ steps, s.isIntersect = false) : additive t steps = leftToRight t steps := by
  induction steps generalizing t with
  | nil => rw [additive]; rfl
  | cons s steps ih =>
    obtain ⟨-, hsteps⟩ := List.forall_mem_cons.1 h
    have htake : steps.takeWhile Step.isIntersect = [] := by
      cases steps with
      | nil => rfl
      | cons s' steps => simp [hsteps s' (List.mem_cons_self ..)]
    have hdrop : steps.dropWhile Step.isIntersect = steps := by
      cases steps with
      | nil => rfl
      | cons s' steps => simp [hsteps s' (List.mem_cons_self ..)]
    rw [additive, htake, hdrop, ih _ hsteps]
    rfl

theorem intersectsFirst_iff (steps : List (Step α)) : IntersectsFirst steps ↔
    ∀ p ∈ (steps.map Step.shape).dropWhile (·.1 == .intersect), (p.1 == .intersect) = false := by
  rw [List.dropWhile_map]
  have hpred : ((fun p : SetOperator × Bool => p.1 == .intersect) ∘ Step.shape : Step α → Bool) =
      Step.isIntersect := rfl
  rw [hpred, List.forall_mem_map]
  exact Iff.rfl

/-- Operands do not matter. -/
theorem intersectsFirst_congr {β : Type} {steps : List (Step α)} {steps' : List (Step β)}
    (h : steps.map Step.shape = steps'.map Step.shape) :
    IntersectsFirst steps ↔ IntersectsFirst steps' := by
  rw [intersectsFirst_iff, intersectsFirst_iff, h]

/-- **With the `INTERSECT`s first the grammar reads from left to right.** -/
theorem byPrecedence_eq_leftToRight (t : SetTree α) (steps : List (Step α))
    (h : IntersectsFirst steps) : byPrecedence t steps = leftToRight t steps := by
  rw [byPrecedence, additive_eq_leftToRight _ _ h, leftToRight, leftToRight, leftToRight,
    ← List.foldl_append, List.takeWhile_append_dropWhile]

end Readings

/-! ## Values -/

section Values

variable {ρ : Type} [DecidableEq ρ]

def combine (operator : SetOperator) (all : Bool) (a b : Multiset ρ) : Multiset ρ :=
  match operator, all with
  | .union, true => a + b
  | .union, false => (a + b).dedup
  | .intersect, true => a ∩ b
  | .intersect, false => (a ∩ b).dedup
  | .except, true => a - b
  | .except, false => (a.filter (· ∉ b)).dedup

def SetTree.value : SetTree (Multiset ρ) → Multiset ρ
  | leaf rows => rows
  | node operator all left right => combine operator all left.value right.value

/-- The chain computed from left to right. -/
def leftValue (rows : Multiset ρ) (steps : List (Step (Multiset ρ))) : Multiset ρ :=
  steps.foldl (fun rows s => combine s.operator s.all rows s.operand) rows

theorem value_leftToRight (t : SetTree (Multiset ρ)) (steps : List (Step (Multiset ρ))) :
    (leftToRight t steps).value = leftValue t.value steps := by
  induction steps generalizing t with
  | nil => rfl
  | cons s steps ih => exact ih (.node s.operator s.all t (.leaf s.operand))

/-- The chain computed by the standard grammar. -/
def precedenceValue (rows : Multiset ρ) (steps : List (Step (Multiset ρ))) : Multiset ρ :=
  (byPrecedence (.leaf rows) steps).value

@[simp] theorem precedenceValue_nil (rows : Multiset ρ) : precedenceValue rows [] = rows := by
  rw [precedenceValue, byPrecedence, List.takeWhile_nil, List.dropWhile_nil, additive]
  rfl

theorem precedenceValue_eq_leftValue (rows : Multiset ρ) (steps : List (Step (Multiset ρ)))
    (h : IntersectsFirst steps) : precedenceValue rows steps = leftValue rows steps := by
  rw [precedenceValue, byPrecedence_eq_leftToRight _ _ h, value_leftToRight]
  rfl

/-! ## Rows of a chain -/

theorem mem_intersect {x : ρ} {all : Bool} {a b : Multiset ρ} :
    x ∈ combine .intersect all a b ↔ x ∈ a ∧ x ∈ b := by
  cases all <;> simp [combine]

theorem mem_union {x : ρ} {all : Bool} {a b : Multiset ρ} :
    x ∈ combine .union all a b ↔ x ∈ a ∨ x ∈ b := by
  cases all <;> simp [combine]

theorem mem_of_mem_except {x : ρ} {all : Bool} {a b : Multiset ρ}
    (h : x ∈ combine .except all a b) : x ∈ a := by
  cases all with
  | true => exact Multiset.mem_of_le (Multiset.sub_le_self a b) h
  | false =>
    simp only [combine, Multiset.mem_dedup, Multiset.mem_filter] at h
    exact h.1

/-- A chain of `INTERSECT`s keeps the rows of all its operands. -/
theorem mem_leftValue_intersects {x : ρ} {rows : Multiset ρ} {steps : List (Step (Multiset ρ))}
    (h : ∀ s ∈ steps, s.isIntersect = true) :
    x ∈ leftValue rows steps ↔ x ∈ rows ∧ ∀ s ∈ steps, x ∈ s.operand := by
  induction steps generalizing rows with
  | nil => simp [leftValue]
  | cons s steps ih =>
    obtain ⟨hs, hsteps⟩ := List.forall_mem_cons.1 h
    have hop := Step.isIntersect_iff.1 hs
    show x ∈ leftValue (combine s.operator s.all rows s.operand) steps ↔ _
    rw [ih hsteps, hop, mem_intersect, List.forall_mem_cons, and_assoc]

theorem mem_except_of {x : ρ} {all : Bool} {a b : Multiset ρ} (ha : x ∈ a) (hb : x ∉ b) :
    x ∈ combine .except all a b := by
  cases all with
  | true =>
    have hcount : b.count x = 0 := Multiset.count_eq_zero.2 hb
    have := Multiset.count_pos.2 ha
    refine Multiset.count_pos.1 ?_
    simp only [combine, Multiset.count_sub]
    omega
  | false => simp [combine, ha, hb]

/-- The first step, when there is one, is no `INTERSECT`. -/
def StartsTerm (steps : List (Step (Multiset ρ))) : Prop :=
  ∀ s rest, steps = s :: rest → s.isIntersect = false

omit [DecidableEq ρ] in
theorem startsTerm_dropWhile (steps : List (Step (Multiset ρ))) :
    StartsTerm (steps.dropWhile Step.isIntersect) := by
  intro s rest h
  have hhead := List.head?_dropWhile_not Step.isIntersect steps
  rw [h] at hhead
  simpa using hhead

/-- A row of an expression comes from its first term or from a `UNION`. -/
theorem mem_of_mem_additive {x : ρ} (t : SetTree (Multiset ρ)) (steps : List (Step (Multiset ρ)))
    (h : x ∈ (additive t steps).value) :
    x ∈ t.value ∨ ∃ s ∈ steps, s.operator = .union ∧ x ∈ s.operand := by
  induction t, steps using additive.induct with
  | case1 t =>
    rw [additive] at h
    exact .inl h
  | case2 t s steps ih =>
    rw [additive] at h
    rcases ih h with hnode | ⟨s', hs', hunion, hx⟩
    · rw [SetTree.value, value_leftToRight] at hnode
      cases hop : s.operator with
      | union =>
        rw [hop, mem_union] at hnode
        rcases hnode with ht | hterm
        · exact .inl ht
        · have hmem := (mem_leftValue_intersects fun s hs => List.mem_takeWhile_imp hs).1 hterm
          exact .inr ⟨s, List.mem_cons_self .., hop, hmem.1⟩
      | intersect =>
        rw [hop, mem_intersect] at hnode
        exact .inl hnode.1
      | except =>
        rw [hop] at hnode
        exact .inl (mem_of_mem_except hnode)
    · exact .inr ⟨s', List.mem_cons_of_mem s ((List.dropWhile_sublist _).subset hs'), hunion, hx⟩

theorem mem_of_mem_precedence {x : ρ} {rows : Multiset ρ} {steps : List (Step (Multiset ρ))}
    (h : x ∈ precedenceValue rows steps) :
    x ∈ rows ∨ ∃ s ∈ steps, s.operator = .union ∧ x ∈ s.operand := by
  rcases mem_of_mem_additive _ _ h with hterm | ⟨s, hs, hunion, hx⟩
  · rw [value_leftToRight] at hterm
    exact .inl ((mem_leftValue_intersects fun s hs => List.mem_takeWhile_imp hs).1 hterm).1
  · exact .inr ⟨s, (List.dropWhile_sublist _).subset hs, hunion, hx⟩

/-- A row of every `UNION` and `INTERSECT` operand and of no `EXCEPT` operand is in an
expression that has it in its first term or in a `UNION`. -/
theorem mem_additive_of {x : ρ} (t : SetTree (Multiset ρ)) (steps : List (Step (Multiset ρ)))
    (hsteps : ∀ s ∈ steps, s.operator = .except ↔ x ∉ s.operand)
    (h : x ∈ t.value ∨ ∃ s ∈ steps, s.operator = .union) : x ∈ (additive t steps).value := by
  induction t, steps using additive.induct with
  | case1 t =>
    rw [additive]
    exact h.resolve_right (by simp)
  | case2 t s steps ih =>
    rw [additive]
    obtain ⟨hs, hrest⟩ := List.forall_mem_cons.1 hsteps
    have hdrop : ∀ s' ∈ steps.dropWhile Step.isIntersect, s'.operator = .except ↔
        x ∉ s'.operand := fun s' hs' => hrest s' ((List.dropWhile_sublist _).subset hs')
    have hterm : x ∈ leftValue s.operand (steps.takeWhile Step.isIntersect) ↔ x ∈ s.operand := by
      rw [mem_leftValue_intersects fun s hs => List.mem_takeWhile_imp hs]
      refine ⟨fun h => h.1, fun h => ⟨h, fun s' hs' => ?_⟩⟩
      have hop : s'.operator = .intersect := operator_of_mem_takeWhile hs'
      by_contra hx
      have := (hrest s' ((List.takeWhile_sublist _).subset hs')).2 hx
      rw [hop] at this
      cases this
    -- a later `UNION` stands behind the `INTERSECT`s of this term
    have hlater : (∃ s' ∈ steps, s'.operator = .union) →
        ∃ s' ∈ steps.dropWhile Step.isIntersect, s'.operator = .union := by
      rintro ⟨s', hs', hunion⟩
      rw [← List.takeWhile_append_dropWhile (p := Step.isIntersect) (l := steps),
        List.mem_append] at hs'
      rcases hs' with htake | hdrop'
      · have hop : s'.operator = .intersect := operator_of_mem_takeWhile htake
        rw [hunion] at hop
        cases hop
      · exact ⟨s', hdrop', hunion⟩
    refine ih hdrop ?_
    rw [SetTree.value, value_leftToRight]
    cases hop : s.operator with
    | union =>
      have hx : x ∈ s.operand := by
        by_contra hx
        have := hs.2 hx
        rw [hop] at this
        cases this
      exact .inl (mem_union.2 (.inr (hterm.2 hx)))
    | intersect =>
      have hx : x ∈ s.operand := by
        by_contra hx
        have := hs.2 hx
        rw [hop] at this
        cases this
      rcases h with ht | ⟨s', hs', hunion⟩
      · exact .inl (mem_intersect.2 ⟨ht, hterm.2 hx⟩)
      · rcases List.mem_cons.1 hs' with rfl | hs'
        · rw [hop] at hunion
          cases hunion
        · exact .inr (hlater ⟨s', hs', hunion⟩)
    | except =>
      rcases h with ht | ⟨s', hs', hunion⟩
      · exact .inl (mem_except_of ht (fun hmem => hs.1 hop (hterm.1 hmem)))
      · rcases List.mem_cons.1 hs' with rfl | hs'
        · rw [hop] at hunion
          cases hunion
        · exact .inr (hlater ⟨s', hs', hunion⟩)

theorem mem_precedence_of {x : ρ} {rows : Multiset ρ} {steps : List (Step (Multiset ρ))}
    (hsteps : ∀ s ∈ steps, s.operator = .except ↔ x ∉ s.operand)
    (h : x ∈ rows ∨ ∃ s ∈ steps, s.operator = .union) : x ∈ precedenceValue rows steps := by
  have hintersects : ∀ s ∈ steps.takeWhile Step.isIntersect, s.operator = .intersect :=
    fun s hs => operator_of_mem_takeWhile hs
  refine mem_additive_of _ _ (fun s hs => hsteps s ((List.dropWhile_sublist _).subset hs)) ?_
  rcases h with hx | ⟨s, hs, hunion⟩
  · rw [value_leftToRight]
    refine .inl ((mem_leftValue_intersects fun s hs => List.mem_takeWhile_imp hs).2 ⟨hx, ?_⟩)
    intro s hs
    by_contra hx'
    have := (hsteps s ((List.takeWhile_sublist _).subset hs)).2 hx'
    rw [hintersects s hs] at this
    cases this
  · rw [← List.takeWhile_append_dropWhile (p := Step.isIntersect) (l := steps),
      List.mem_append] at hs
    rcases hs with htake | hdrop
    · rw [hintersects s htake] at hunion
      cases hunion
    · exact .inr ⟨s, hdrop, hunion⟩

theorem mem_of_mem_leftValue {x : ρ} {rows : Multiset ρ} {steps : List (Step (Multiset ρ))}
    (h : x ∈ leftValue rows steps) :
    x ∈ rows ∨ ∃ s ∈ steps, s.operator = .union ∧ x ∈ s.operand := by
  induction steps generalizing rows with
  | nil => exact .inl h
  | cons s steps ih =>
    rcases ih h with hmem | ⟨s', hs', hunion, hx⟩
    · have hmem : x ∈ combine s.operator s.all rows s.operand := hmem
      cases hop : s.operator with
      | union =>
        rw [hop, mem_union] at hmem
        exact hmem.imp id fun hx => ⟨s, List.mem_cons_self .., hop, hx⟩
      | intersect =>
        rw [hop, mem_intersect] at hmem
        exact .inl hmem.1
      | except =>
        rw [hop] at hmem
        exact .inl (mem_of_mem_except hmem)
    · exact .inr ⟨s', List.mem_cons_of_mem s hs', hunion, hx⟩

theorem mem_leftValue_of {x : ρ} {rows : Multiset ρ} {steps : List (Step (Multiset ρ))}
    (hsteps : ∀ s ∈ steps, s.operator = .except ↔ x ∉ s.operand) (h : x ∈ rows) :
    x ∈ leftValue rows steps := by
  induction steps generalizing rows with
  | nil => exact h
  | cons s steps ih =>
    obtain ⟨hs, hrest⟩ := List.forall_mem_cons.1 hsteps
    refine ih hrest ?_
    show x ∈ combine s.operator s.all rows s.operand
    cases hop : s.operator with
    | union => exact mem_union.2 (.inl h)
    | intersect =>
      refine mem_intersect.2 ⟨h, ?_⟩
      by_contra hx
      have := hs.2 hx
      rw [hop] at this
      cases this
    | except => exact mem_except_of h (hs.1 hop)

/-- A row once in `a` is in no distinct or bag difference with rows that have it. -/
theorem not_mem_except {x : ρ} {all : Bool} {a b : Multiset ρ} (ha : a.Nodup) (hb : x ∈ b) :
    x ∉ combine .except all a b := by
  cases all with
  | true =>
    intro h
    have hpos := Multiset.count_pos.2 h
    have hone := Multiset.nodup_iff_count_le_one.1 ha x
    have hb := Multiset.count_pos.2 hb
    simp only [combine, Multiset.count_sub] at hpos
    omega
  | false => simp [combine, hb]

/-! ## Where the readings differ -/

/-- Without rows an `INTERSECT` leaves none, and nothing brings one back. -/
theorem leftValue_eq_zero {rows : Multiset ρ} {steps : List (Step (Multiset ρ))}
    (hzero : ∀ s ∈ steps, s.operand = 0)
    (h : rows = 0 ∨ ∃ s ∈ steps, s.isIntersect = true) : leftValue rows steps = 0 := by
  induction steps generalizing rows with
  | nil => exact h.resolve_right (by simp)
  | cons s steps ih =>
    obtain ⟨hs, hsteps⟩ := List.forall_mem_cons.1 hzero
    refine ih hsteps ?_
    show combine s.operator s.all rows s.operand = 0 ∨ _
    rw [hs]
    cases hop : s.operator with
    | intersect => cases s.all <;> simp [combine]
    | union =>
      rcases h with rfl | ⟨s', hs', hintersect⟩
      · cases s.all <;> simp [combine]
      · rcases List.mem_cons.1 hs' with rfl | hs'
        · rw [Step.isIntersect, hop] at hintersect
          cases hintersect
        · exact .inr ⟨s', hs', hintersect⟩
    | except =>
      rcases h with rfl | ⟨s', hs', hintersect⟩
      · cases s.all <;> simp [combine]
      · rcases List.mem_cons.1 hs' with rfl | hs'
        · rw [Step.isIntersect, hop] at hintersect
          cases hintersect
        · exact .inr ⟨s', hs', hintersect⟩

/-- Operands without rows change nothing after the first term. -/
theorem mem_additive_zero {x : ρ} (t : SetTree (Multiset ρ)) (steps : List (Step (Multiset ρ)))
    (hzero : ∀ s ∈ steps, s.operand = 0) (hstarts : StartsTerm steps) (h : x ∈ t.value) :
    x ∈ (additive t steps).value := by
  induction t, steps using additive.induct with
  | case1 t =>
    rw [additive]
    exact h
  | case2 t s steps ih =>
    rw [additive]
    obtain ⟨hs, hsteps⟩ := List.forall_mem_cons.1 hzero
    refine ih (fun s' hs' => hsteps s' ((List.dropWhile_sublist _).subset hs'))
      (startsTerm_dropWhile steps) ?_
    rw [SetTree.value, value_leftToRight]
    have hterm : x ∉ leftValue s.operand (steps.takeWhile Step.isIntersect) := by
      rw [mem_leftValue_intersects fun s hs => List.mem_takeWhile_imp hs, hs]
      simp
    have hfirst := hstarts s steps rfl
    cases hop : s.operator with
    | union => exact mem_union.2 (.inl h)
    | intersect =>
      rw [Step.isIntersect_iff.2 hop] at hfirst
      cases hfirst
    | except => exact mem_except_of h hterm

/-- **With an `INTERSECT` after a `UNION` or an `EXCEPT` the readings differ**: some operands
leave nothing from left to right and every row of `rows` by precedence. -/
theorem exists_readings_differ {α : Type} (steps : List (Step α)) (h : ¬ IntersectsFirst steps)
    (rows : Multiset ρ) :
    ∃ steps' : List (Step (Multiset ρ)), steps'.map Step.shape = steps.map Step.shape ∧
      leftValue rows steps' = 0 ∧ ∀ x ∈ rows, x ∈ precedenceValue rows steps' := by
  have hfirst : ∀ s ∈ (steps.takeWhile Step.isIntersect).map (Step.on rows),
      s.isIntersect = true := by
    intro s hs
    obtain ⟨s', hs', rfl⟩ := List.mem_map.1 hs
    have hop : s'.operator = .intersect := operator_of_mem_takeWhile hs'
    exact Step.isIntersect_iff.2 hop
  have hstarts : StartsTerm ((steps.dropWhile Step.isIntersect).map (Step.on (0 : Multiset ρ))) := by
    intro s rest heq
    obtain ⟨s', rest', hdrop, rfl, rfl⟩ := List.map_eq_cons_iff.1 heq
    have hhead := List.head?_dropWhile_not Step.isIntersect steps
    rw [hdrop] at hhead
    simpa [Step.isIntersect, Step.on] using hhead
  have hzero : ∀ s ∈ (steps.dropWhile Step.isIntersect).map (Step.on (0 : Multiset ρ)),
      s.operand = 0 := by
    intro s hs
    obtain ⟨s, -, rfl⟩ := List.mem_map.1 hs
    rfl
  generalize hpre : (steps.takeWhile Step.isIntersect).map (Step.on rows) = pre at hfirst
  generalize hpost : (steps.dropWhile Step.isIntersect).map (Step.on (0 : Multiset ρ)) = post
    at hstarts hzero
  refine ⟨pre ++ post, ?_, ?_, fun x hx => ?_⟩
  · rw [← hpre, ← hpost, List.map_append, List.map_map, List.map_map]
    show (steps.takeWhile Step.isIntersect).map Step.shape ++
      (steps.dropWhile Step.isIntersect).map Step.shape = _
    rw [← List.map_append, List.takeWhile_append_dropWhile]
  · rw [leftValue, List.foldl_append]
    refine leftValue_eq_zero hzero (.inr ?_)
    obtain ⟨s, hs, hintersect⟩ :
        ∃ s ∈ steps.dropWhile Step.isIntersect, s.isIntersect = true := by
      simpa [IntersectsFirst] using h
    rw [← hpost]
    exact ⟨s.on 0, List.mem_map_of_mem hs, hintersect⟩
  · have htake : (pre ++ post).takeWhile Step.isIntersect = pre := by
      rw [List.takeWhile_append_of_pos hfirst]
      cases post with
      | nil => simp
      | cons s rest => simp [hstarts s rest rfl]
    have hdrop : (pre ++ post).dropWhile Step.isIntersect = post := by
      rw [List.dropWhile_append_of_pos hfirst]
      cases post with
      | nil => rfl
      | cons s rest => simp [hstarts s rest rfl]
    rw [precedenceValue, byPrecedence, htake, hdrop]
    refine mem_additive_zero _ _ hzero hstarts ?_
    rw [value_leftToRight, mem_leftValue_intersects hfirst]
    refine ⟨hx, fun s hs => ?_⟩
    rw [← hpre] at hs
    obtain ⟨s, -, rfl⟩ := List.mem_map.1 hs
    exact hx

end Values

end Plenora.Lib.SetExpressions
