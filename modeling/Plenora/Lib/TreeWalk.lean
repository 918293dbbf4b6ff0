import Mathlib

/-!
# Walks of a tree with a stack

`while let Some(node) = stack.pop()`: a visitor with a state of its own answers for each node
whether the nodes under it are visited too, are passed over, or the walk ends.  A node is known
by its path from the root.  What the walk visits is said without the stack:

    Walked root log:  the visits stand in document order, and a node is visited exactly when
      no visit above it passes its subtree over and no visit before it ends the walk

    walk visitor [root] s = (whole, s')  →  ∃ log, Walked root log ∧
      Replays visitor s log s' ∧ (whole ↔ no visit of log ends the walk)        (walk_walked)
-/

namespace Plenora.Lib

/-- What a visitor answers. -/
inductive Control where
  | proceed | skip | stop
  deriving DecidableEq, Repr

/-- The nodes under each node, in order; no node is under itself. -/
structure OrderedTree (ν : Type) where
  children : ν → List ν
  wf : WellFounded fun c n => c ∈ children n

/-- A node and its path from the root. -/
@[ext]
structure Place (ν : Type) where
  path : List Nat
  node : ν

/-- A visited node and the answer of the visitor. -/
structure Visit (ν : Type) where
  place : Place ν
  answer : Control

namespace OrderedTree

variable {ν σ : Type}

/-! ## The tree -/

/-- The nodes under a node, each at its path. -/
def below (t : OrderedTree ν) (p : Place ν) : List (Place ν) :=
  (t.children p.node).mapIdx fun i c => ⟨p.path ++ [i], c⟩

/-- The node at a path from `root`. -/
def nodeAt (t : OrderedTree ν) (root : ν) : List Nat → Option ν
  | [] => some root
  | i :: path => (t.children root)[i]?.bind fun c => t.nodeAt c path

/-- The number of nodes of the tree under a node. -/
def count (t : OrderedTree ν) (n : ν) : Nat := 1 + ((t.children n).attach.map fun c => t.count c.1).sum
termination_by t.wf.wrap n
decreasing_by exact c.2

theorem count_eq (t : OrderedTree ν) (n : ν) : t.count n = 1 + ((t.children n).map t.count).sum := by
  have hmap : (t.children n).attach.map (fun c => t.count c.1) = (t.children n).map t.count := by
    simp
  rw [count, hmap]

theorem nodeAt_append (t : OrderedTree ν) (root : ν) (path rest : List Nat) :
    t.nodeAt root (path ++ rest) = (t.nodeAt root path).bind (t.nodeAt · rest) := by
  induction path generalizing root with
  | nil => rfl
  | cons i path ih =>
    rw [List.cons_append, nodeAt, nodeAt, Option.bind_assoc]
    exact congrArg _ (funext fun c => ih c)

theorem mem_below (t : OrderedTree ν) {p c : Place ν} :
    c ∈ t.below p ↔ ∃ i, (t.children p.node)[i]? = some c.node ∧ c.path = p.path ++ [i] := by
  rw [below, List.mem_mapIdx]
  constructor
  · rintro ⟨i, hi, rfl⟩
    exact ⟨i, List.getElem?_eq_getElem hi, rfl⟩
  · rintro ⟨i, hnode, hpath⟩
    obtain ⟨hi, hget⟩ := List.getElem?_eq_some_iff.1 hnode
    exact ⟨i, hi, by cases c; simp_all⟩

theorem map_count_below (t : OrderedTree ν) (p : Place ν) :
    ((t.below p).map fun c => t.count c.node) = (t.children p.node).map t.count := by
  apply List.ext_getElem
  · simp [below]
  · intro i h₁ h₂
    simp [below]

/-! ## The walk -/

variable (t : OrderedTree ν) (visitor : σ → Place ν → Control × σ)

/-- **The loop**: the head of the list is the top of the stack.  The result says whether no
visit ended the walk. -/
def walk : List (Place ν) → σ → Bool × σ
  | [], s => (true, s)
  | p :: stack, s =>
    match visitor s p with
    | (.stop, s) => (false, s)
    | (.skip, s) => walk stack s
    | (.proceed, s) => walk (t.below p ++ stack) s
termination_by stack => (stack.map fun p => t.count p.node).sum
decreasing_by
  · have := t.count_eq p.node
    simp only [List.map_cons, List.sum_cons]
    omega
  · have := t.count_eq p.node
    rw [List.map_append, List.sum_append, map_count_below, List.map_cons, List.sum_cons]
    omega

/-- The visits of the loop. -/
def visits : List (Place ν) → σ → List (Visit ν)
  | [], _ => []
  | p :: stack, s =>
    match visitor s p with
    | (.stop, _) => [⟨p, .stop⟩]
    | (.skip, s) => ⟨p, .skip⟩ :: visits stack s
    | (.proceed, s) => ⟨p, .proceed⟩ :: visits (t.below p ++ stack) s
termination_by stack => (stack.map fun p => t.count p.node).sum
decreasing_by
  · have := t.count_eq p.node
    simp only [List.map_cons, List.sum_cons]
    omega
  · have := t.count_eq p.node
    rw [List.map_append, List.sum_append, map_count_below, List.map_cons, List.sum_cons]
    omega

end OrderedTree

/-! ## Document order -/

/-- Neither path is above the other, and the first is on the left. -/
def Apart (a b : List Nat) : Prop :=
  ∃ stem i j as bs, a = stem ++ i :: as ∧ b = stem ++ j :: bs ∧ i < j

theorem Apart.append {a b : List Nat} (h : Apart a b) (as bs : List Nat) :
    Apart (a ++ as) (b ++ bs) := by
  obtain ⟨stem, i, j, as', bs', rfl, rfl, hlt⟩ := h
  exact ⟨stem, i, j, as' ++ as, bs' ++ bs, by simp, by simp, hlt⟩

theorem append_lt_append {stem a b : List Nat} (h : a < b) : stem ++ a < stem ++ b := by
  induction stem with
  | nil => exact h
  | cons i stem ih => exact List.Lex.cons ih

theorem Apart.lt {a b : List Nat} (h : Apart a b) : a < b := by
  obtain ⟨stem, i, j, as, bs, rfl, rfl, hlt⟩ := h
  exact append_lt_append (List.Lex.rel hlt)

theorem Apart.not_above {a b : List Nat} (h : Apart a b) : ¬ a <+: b := by
  obtain ⟨stem, i, j, as, bs, rfl, rfl, hlt⟩ := h
  rintro ⟨rest, heq⟩
  rw [List.append_assoc, List.append_cancel_left_eq, List.cons_append] at heq
  have hij := (List.cons.inj heq).1
  omega

theorem lt_append {a rest : List Nat} (h : rest ≠ []) : a < a ++ rest := by
  obtain ⟨i, rest, rfl⟩ := List.exists_cons_of_ne_nil h
  have hlt : a ++ [] < a ++ i :: rest := append_lt_append List.Lex.nil
  rwa [List.append_nil] at hlt

theorem lt_of_above {a b : List Nat} (h : a <+: b) (hne : a ≠ b) : a < b := by
  obtain ⟨rest, rfl⟩ := h
  refine lt_append fun hnil => hne ?_
  rw [hnil, List.append_nil]

namespace Visit

variable {ν : Type}

/-- The visit keeps the walk from a path: it passes over the subtree that the path is in, or it
ends the walk before. -/
def Hides (v : Visit ν) (path : List Nat) : Prop :=
  v.answer = .skip ∧ v.place.path <+: path ∧ v.place.path ≠ path ∨
    v.answer = .stop ∧ v.place.path < path

theorem Hides.lt {v : Visit ν} {path : List Nat} (h : v.Hides path) : v.place.path < path := by
  rcases h with ⟨-, habove, hne⟩ | ⟨-, hlt⟩
  · exact lt_of_above habove hne
  · exact hlt

end Visit

namespace OrderedTree

variable {ν σ : Type} (t : OrderedTree ν)

/-- `q` is `p` or in the subtree under it. -/
def Under (p q : Place ν) : Prop :=
  ∃ rest, q.path = p.path ++ rest ∧ t.nodeAt p.node rest = some q.node

/-- `q` is at or under a place on the stack. -/
def Pending (stack : List (Place ν)) (q : Place ν) : Prop := ∃ p ∈ stack, t.Under p q

/-- **The visits of a whole walk, without the stack.** -/
structure Walked (stack : List (Place ν)) (log : List (Visit ν)) : Prop where
  ordered : log.Pairwise fun a b => a.place.path < b.place.path
  visited : ∀ q, (∃ a, ⟨q, a⟩ ∈ log) ↔ t.Pending stack q ∧ ∀ v ∈ log, ¬ v.Hides q.path

variable {t}

theorem under_self (p : Place ν) : t.Under p p := ⟨[], (List.append_nil _).symm, rfl⟩

theorem under_iff {p q : Place ν} : t.Under p q ↔ q = p ∨ ∃ c ∈ t.below p, t.Under c q := by
  constructor
  · rintro ⟨rest, hpath, hnode⟩
    cases rest with
    | nil =>
      left
      rw [List.append_nil] at hpath
      exact Place.ext hpath (Option.some.inj hnode).symm
    | cons i rest =>
      obtain ⟨c, hc, hrest⟩ := Option.bind_eq_some_iff.1 hnode
      exact .inr ⟨⟨p.path ++ [i], c⟩, t.mem_below.2 ⟨i, hc, rfl⟩, rest, by simp [hpath], hrest⟩
  · rintro (rfl | ⟨c, hc, rest, hpath, hnode⟩)
    · exact under_self q
    · obtain ⟨i, hi, hcpath⟩ := t.mem_below.1 hc
      refine ⟨i :: rest, by simp [hpath, hcpath], ?_⟩
      rw [nodeAt, hi]
      exact hnode

theorem apart_of_under {p r q q' : Place ν} (h : Apart p.path r.path) (hq : t.Under p q)
    (hq' : t.Under r q') : Apart q.path q'.path := by
  obtain ⟨rest, hpath, -⟩ := hq
  obtain ⟨rest', hpath', -⟩ := hq'
  rw [hpath, hpath']
  exact h.append rest rest'

/-- One visit before a walk of what it leaves on the stack. -/
theorem Walked.cons {p : Place ν} {a : Control} {stack next : List (Place ν)}
    {log : List (Visit ν)} (h : t.Walked next log)
    (hsub : ∀ q, t.Pending next q → t.Pending (p :: stack) q ∧ p.path < q.path ∧
      ¬ (Visit.mk p a).Hides q.path)
    (hall : ∀ q, t.Pending (p :: stack) q → q = p ∨ t.Pending next q ∨
      (Visit.mk p a).Hides q.path) :
    t.Walked (p :: stack) (⟨p, a⟩ :: log) := by
  have hlt : ∀ v ∈ log, p.path < v.place.path := fun v hv =>
    (hsub _ ((h.visited v.place).1 ⟨v.answer, hv⟩).1).2.1
  refine ⟨List.pairwise_cons.2 ⟨hlt, h.ordered⟩, fun q => ?_⟩
  simp only [List.mem_cons, forall_eq_or_imp]
  constructor
  · rintro ⟨b, heq | hmem⟩
    · obtain ⟨rfl, -⟩ := Visit.mk.inj heq
      refine ⟨⟨q, List.mem_cons_self .., under_self q⟩, fun hhides => ?_, fun v hv hhides => ?_⟩
      · exact lt_irrefl _ hhides.lt
      · exact lt_asymm hhides.lt (hlt v hv)
    · obtain ⟨hpending, hclear⟩ := (h.visited q).1 ⟨b, hmem⟩
      exact ⟨(hsub q hpending).1, (hsub q hpending).2.2, hclear⟩
  · rintro ⟨hpending, hnot, hclear⟩
    rcases hall q hpending with rfl | hnext | hhides
    · exact ⟨a, .inl rfl⟩
    · obtain ⟨b, hb⟩ := (h.visited q).2 ⟨hnext, hclear⟩
      exact ⟨b, .inr hb⟩
    · exact absurd hhides hnot

/-- The places on the stack stand apart, from left to right. -/
def Spread (stack : List (Place ν)) : Prop := stack.Pairwise fun p q => Apart p.path q.path

theorem spread_below {p : Place ν} {stack : List (Place ν)} (h : Spread (p :: stack)) :
    Spread (t.below p ++ stack) := by
  obtain ⟨hp, hstack⟩ := List.pairwise_cons.1 h
  refine List.pairwise_append.2 ⟨?_, hstack, fun c hc r hr => ?_⟩
  · refine List.pairwise_iff_getElem.2 fun i j hi hj hij => ?_
    simp only [below, List.getElem_mapIdx]
    exact ⟨p.path, i, j, [], [], rfl, rfl, hij⟩
  · obtain ⟨i, -, hpath⟩ := t.mem_below.1 hc
    rw [hpath, ← List.append_nil r.path]
    exact (hp r hr).append [i] []

theorem apart_of_pending {p q : Place ν} {stack : List (Place ν)} (h : Spread (p :: stack))
    (hq : t.Pending stack q) : Apart p.path q.path := by
  obtain ⟨r, hr, hunder⟩ := hq
  exact apart_of_under ((List.pairwise_cons.1 h).1 r hr) (under_self p) hunder

/-- Below a place, and not the place. -/
theorem above_of_below {p q : Place ν} (h : ∃ c ∈ t.below p, t.Under c q) :
    p.path <+: q.path ∧ p.path ≠ q.path := by
  obtain ⟨c, hc, rest, hpath, -⟩ := h
  obtain ⟨i, -, hcpath⟩ := t.mem_below.1 hc
  rw [hpath, hcpath, List.append_assoc]
  exact ⟨List.prefix_append .., by simp⟩

theorem pending_cons {p q : Place ν} {stack : List (Place ν)} :
    t.Pending (p :: stack) q ↔ t.Under p q ∨ t.Pending stack q := by
  simp [Pending]

theorem pending_append {left right : List (Place ν)} {q : Place ν} :
    t.Pending (left ++ right) q ↔ (∃ c ∈ left, t.Under c q) ∨ t.Pending right q := by
  simp [Pending, or_and_right, exists_or]

theorem walked_nil : t.Walked [] [] := ⟨.nil, fun q => by simp [Pending]⟩

/-- **The loop visits what is pending, in document order.** -/
theorem walked_visits (visitor : σ → Place ν → Control × σ) (stack : List (Place ν)) (s : σ)
    (h : Spread stack) : t.Walked stack (t.visits visitor stack s) := by
  induction stack, s using visits.induct t visitor with
  | case1 s =>
    rw [visits]
    exact walked_nil
  | case2 s p stack s' hanswer =>
    rw [visits, hanswer]
    refine walked_nil.cons (fun q hq => ?_) fun q hq => ?_
    · obtain ⟨r, hr, -⟩ := hq
      cases hr
    · rcases pending_cons.1 hq with hunder | hq
      · rcases under_iff.1 hunder with rfl | hbelow
        · exact .inl rfl
        · obtain ⟨habove, hne⟩ := above_of_below hbelow
          exact .inr (.inr (.inr ⟨rfl, lt_of_above habove hne⟩))
      · exact .inr (.inr (.inr ⟨rfl, (apart_of_pending h hq).lt⟩))
  | case3 s p stack s' hanswer ih =>
    rw [visits, hanswer]
    refine (ih (List.pairwise_cons.1 h).2).cons (fun q hq => ?_) fun q hq => ?_
    · have hapart := apart_of_pending h hq
      refine ⟨pending_cons.2 (.inr hq), hapart.lt, ?_⟩
      rintro (⟨-, habove, -⟩ | ⟨hstop, -⟩)
      · exact hapart.not_above habove
      · cases hstop
    · rcases pending_cons.1 hq with hunder | hq
      · rcases under_iff.1 hunder with rfl | hbelow
        · exact .inl rfl
        · exact .inr (.inr (.inl ⟨rfl, above_of_below hbelow⟩))
      · exact .inr (.inl hq)
  | case4 s p stack s' hanswer ih =>
    rw [visits, hanswer]
    refine (ih (spread_below h)).cons (fun q hq => ?_) fun q hq => ?_
    · rcases pending_append.1 hq with hbelow | hq
      · obtain ⟨habove, hne⟩ := above_of_below hbelow
        refine ⟨pending_cons.2 (.inl (under_iff.2 (.inr hbelow))), lt_of_above habove hne, ?_⟩
        rintro (⟨hskip, -⟩ | ⟨hstop, -⟩)
        · cases hskip
        · cases hstop
      · refine ⟨pending_cons.2 (.inr hq), (apart_of_pending h hq).lt, ?_⟩
        rintro (⟨hskip, -⟩ | ⟨hstop, -⟩)
        · cases hskip
        · cases hstop
    · rcases pending_cons.1 hq with hunder | hq
      · rcases under_iff.1 hunder with rfl | hbelow
        · exact .inl rfl
        · exact .inr (.inl (pending_append.2 (.inl hbelow)))
      · exact .inr (.inl (pending_append.2 (.inr hq)))

/-! ## The state of the visitor -/

/-- The answers and the states of a visitor over some visits. -/
inductive Replays (visitor : σ → Place ν → Control × σ) : σ → List (Visit ν) → σ → Prop
  | nil (s : σ) : Replays visitor s [] s
  | cons {s s' s'' : σ} {p : Place ν} {a : Control} {log : List (Visit ν)} :
    visitor s p = (a, s') → Replays visitor s' log s'' → Replays visitor s (⟨p, a⟩ :: log) s''

theorem walk_replays (visitor : σ → Place ν → Control × σ) (stack : List (Place ν)) (s : σ) :
    Replays visitor s (t.visits visitor stack s) (t.walk visitor stack s).2 ∧
      ((t.walk visitor stack s).1 = true ↔
        ∀ v ∈ t.visits visitor stack s, v.answer ≠ .stop) := by
  induction stack, s using visits.induct t visitor with
  | case1 s =>
    rw [visits, walk]
    exact ⟨.nil s, by simp⟩
  | case2 s p stack s' hanswer =>
    rw [visits, walk, hanswer]
    exact ⟨.cons hanswer (.nil s'), by simp⟩
  | case3 s p stack s' hanswer ih =>
    rw [visits, walk, hanswer]
    exact ⟨.cons hanswer ih.1, by simpa using ih.2⟩
  | case4 s p stack s' hanswer ih =>
    rw [visits, walk, hanswer]
    exact ⟨.cons hanswer ih.1, by simpa using ih.2⟩

/-- **A walk from a root**: its visits without the stack, the state they lead to, and whether it
is whole. -/
theorem walk_walked (visitor : σ → Place ν → Control × σ) (root : ν) (s : σ) :
    ∃ log, t.Walked [⟨[], root⟩] log ∧
      Replays visitor s log (t.walk visitor [⟨[], root⟩] s).2 ∧
      ((t.walk visitor [⟨[], root⟩] s).1 = true ↔ ∀ v ∈ log, v.answer ≠ .stop) :=
  ⟨_, walked_visits visitor _ s (List.pairwise_singleton ..), walk_replays visitor _ s⟩

theorem pending_root {root : ν} {q : Place ν} :
    t.Pending [⟨[], root⟩] q ↔ t.nodeAt root q.path = some q.node := by
  simp [Pending, Under]

end OrderedTree

end Plenora.Lib
