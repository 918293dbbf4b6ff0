import Mathlib

/-!
# Threads over a shared state

Each thread holds the atomic operations it still has to run, the next one first;
an operation changes the shared state and may put further operations before the
rest.  An invariant that speaks of the calls made, of the shared state and of the
operations still pending, and that every operation and every new call keep, holds
in every reachable configuration, whatever the interleaving:

    M.Keeps I → M.run c events = some c' → I [] c.shared c.Pending →
      I (calls events) c'.shared c'.Pending                               (Keeps.run)

Where only the operations that meet a guard keep it, it holds after the runs whose
operations all do (KeepsWithin.run).
-/

namespace Plenora.Lib

/-- What an atomic operation does, and how a call starts. -/
structure Threads (S Op Call : Type) where
  exec : S → Op → S × List Op
  start : S → Call → Option (S × List Op)

namespace Threads

variable {S Op Call : Type}

structure Config (S Op : Type) where
  shared : S
  program : Nat → List Op

/-- A thread without pending operations makes a call, or a thread runs its next operation. -/
inductive Event (Call : Type) where
  | call (thread : Nat) (call : Call)
  | run (thread : Nat)

/-- The call an event makes. -/
def Event.made : Event Call → List Call
  | .call _ made => [made]
  | .run _ => []

/-- The calls made in a run, in their order. -/
def calls (events : List (Event Call)) : List Call := events.flatMap Event.made

/-- An operation some thread still has to run. -/
def Config.Pending (c : Config S Op) (op : Op) : Prop := ∃ i, op ∈ c.program i

/-- Every call returned. -/
def Config.Quiescent (c : Config S Op) : Prop := ∀ i, c.program i = []

theorem Config.Quiescent.not_pending {c : Config S Op} (h : c.Quiescent) (op : Op) :
    ¬ c.Pending op := by
  rintro ⟨i, hi⟩
  rw [h i] at hi
  cases hi

/-- The operation an event runs. -/
def Config.next (c : Config S Op) : Event Call → Option Op
  | .call _ _ => none
  | .run i => (c.program i).head?

/-- How the pending operations change: `done` may be gone, and `new` are there. -/
structure Advances (P P' : Op → Prop) (done : Option Op) (new : List Op) : Prop where
  only : ∀ op, P' op → P op ∨ op ∈ new
  keeps : ∀ op, P op → done = some op ∨ P' op
  adds : ∀ op ∈ new, P' op

theorem Advances.pending_iff {P P' : Op → Prop} {done : Option Op} {new : List Op}
    (h : Advances P P' done new) {op : Op} (hdone : done ≠ some op) (hnew : op ∉ new) :
    P' op ↔ P op :=
  ⟨fun hp => (h.only op hp).resolve_right hnew, fun hp => (h.keeps op hp).resolve_left hdone⟩

variable (M : Threads S Op Call)

def step (c : Config S Op) : Event Call → Option (Config S Op)
  | .call i call =>
    if (c.program i).isEmpty then
      (M.start c.shared call).map fun r => ⟨r.1, Function.update c.program i r.2⟩
    else none
  | .run i =>
    match c.program i with
    | [] => none
    | op :: rest =>
      some ⟨(M.exec c.shared op).1,
        Function.update c.program i ((M.exec c.shared op).2 ++ rest)⟩

def run (c : Config S Op) : List (Event Call) → Option (Config S Op)
  | [] => some c
  | event :: events => (M.step c event).bind (run · events)

/-- What a step can do, shared state and pending operations. -/
theorem step_cases {c c' : Config S Op} {event : Event Call} (h : M.step c event = some c') :
    (∃ op, event.made = [] ∧ c.next event = some op ∧ c.Pending op ∧
      c'.shared = (M.exec c.shared op).1 ∧
      Advances c.Pending c'.Pending (some op) (M.exec c.shared op).2) ∨
    (∃ call ops, event.made = [call] ∧ M.start c.shared call = some (c'.shared, ops) ∧
      Advances c.Pending c'.Pending none ops) := by
  cases event with
  | call i call =>
    simp only [step] at h
    split at h
    next hidle =>
      rw [List.isEmpty_iff] at hidle
      obtain ⟨⟨s, ops⟩, hstart, rfl⟩ := Option.map_eq_some_iff.1 h
      refine .inr ⟨call, ops, rfl, hstart, ⟨?_, ?_, ?_⟩⟩
      · rintro op ⟨j, hj⟩
        by_cases hij : j = i
        · subst hij
          exact .inr (by simpa using hj)
        · exact .inl ⟨j, by simpa [hij] using hj⟩
      · rintro op ⟨j, hj⟩
        have hij : j ≠ i := by
          rintro rfl
          rw [hidle] at hj
          cases hj
        exact .inr ⟨j, by simpa [hij] using hj⟩
      · exact fun op hop => ⟨i, by simpa using hop⟩
    next => cases h
  | run i =>
    simp only [step] at h
    split at h
    next => cases h
    next op rest hprogram =>
      cases h
      refine .inl ⟨op, rfl, by rw [Config.next, hprogram, List.head?_cons],
        ⟨i, by rw [hprogram]; exact List.mem_cons_self⟩, rfl, ⟨?_, ?_, ?_⟩⟩
      · rintro op' ⟨j, hj⟩
        by_cases hij : j = i
        · subst hij
          simp only [Function.update_self, List.mem_append] at hj
          refine hj.elim .inr fun hrest => .inl ⟨j, ?_⟩
          rw [hprogram]
          exact List.mem_cons_of_mem _ hrest
        · exact .inl ⟨j, by simpa [hij] using hj⟩
      · rintro op' ⟨j, hj⟩
        by_cases hij : j = i
        · subst hij
          rw [hprogram] at hj
          rcases List.mem_cons.1 hj with rfl | hrest
          · exact .inl rfl
          · exact .inr ⟨j, by simp [hrest]⟩
        · exact .inr ⟨j, by simpa [hij] using hj⟩
      · exact fun op' hop => ⟨i, by simp [hop]⟩

variable {M}

/-- What every step keeps, with the calls made so far, holds after every run. -/
theorem run_induction {J : List Call → Config S Op → Prop}
    (hstep : ∀ made c c' event, J made c → M.step c event = some c' → J (made ++ event.made) c')
    {c c' : Config S Op} {events : List (Event Call)} {made : List Call}
    (hrun : M.run c events = some c') (hc : J made c) : J (made ++ calls events) c' := by
  induction events generalizing c made with
  | nil =>
    cases hrun
    simpa [calls] using hc
  | cons event events ih =>
    obtain ⟨d, hd, hrest⟩ := Option.bind_eq_some_iff.1 hrun
    rw [calls, List.flatMap_cons, ← List.append_assoc]
    exact ih hrest (hstep made c d event hc hd)

/-- Every operation and every call keeps the invariant. -/
structure Keeps (M : Threads S Op Call) (I : List Call → S → (Op → Prop) → Prop) : Prop where
  exec : ∀ made s P P' op, I made s P → P op → Advances P P' (some op) (M.exec s op).2 →
    I made (M.exec s op).1 P'
  start : ∀ made s P P' call s' ops, I made s P → M.start s call = some (s', ops) →
    Advances P P' none ops → I (made ++ [call]) s' P'

section Keeps

variable {I : List Call → S → (Op → Prop) → Prop}

theorem Keeps.step (h : M.Keeps I) (made : List Call) (c c' : Config S Op) (event : Event Call)
    (hc : I made c.shared c.Pending) (hstep : M.step c event = some c') :
    I (made ++ event.made) c'.shared c'.Pending := by
  rcases M.step_cases hstep with ⟨op, hmade, -, hop, hshared, hadvances⟩ |
    ⟨call, ops, hmade, hstart, hadvances⟩
  · rw [hmade, List.append_nil, hshared]
    exact h.exec _ _ _ _ op hc hop hadvances
  · rw [hmade]
    exact h.start _ _ _ _ call _ ops hc hstart hadvances

/-- **An invariant every operation keeps holds after every run.** -/
theorem Keeps.run (h : M.Keeps I) {c c' : Config S Op} {events : List (Event Call)}
    (hrun : M.run c events = some c') (hc : I [] c.shared c.Pending) :
    I (calls events) c'.shared c'.Pending :=
  run_induction (J := fun made c => I made c.shared c.Pending) h.step hrun hc

/-- A relation between the states before and after a step, when it is a preorder, relates the
ends of every run. -/
theorem Keeps.run_rel (h : M.Keeps I) {R : S → S → Prop} (hrefl : ∀ s, R s s)
    (htrans : ∀ s t u, R s t → R t u → R s u)
    (hexec : ∀ made s P op, I made s P → P op → R s (M.exec s op).1)
    (hstart : ∀ made s P call s' ops, I made s P → M.start s call = some (s', ops) → R s s')
    {c c' : Config S Op} {events : List (Event Call)} {made : List Call}
    (hrun : M.run c events = some c') (hc : I made c.shared c.Pending) : R c.shared c'.shared := by
  refine (run_induction (J := fun made d => I made d.shared d.Pending ∧ R c.shared d.shared)
    (fun made d d' event hd hstep => ⟨h.step made d d' event hd.1 hstep, ?_⟩) hrun
    ⟨hc, hrefl _⟩).2
  refine htrans _ d.shared _ hd.2 ?_
  rcases M.step_cases hstep with ⟨op, -, -, hop, hshared, -⟩ | ⟨call, ops, -, hcall, -⟩
  · rw [hshared]
    exact hexec _ _ _ op hd.1 hop
  · exact hstart _ _ _ call _ ops hd.1 hcall

end Keeps

/-! ## Guarded runs -/

/-- Every operation of the run meets the guard in the state it starts from. -/
def Within (M : Threads S Op Call) (G : S → Op → Prop) (c : Config S Op) :
    List (Event Call) → Prop
  | [] => True
  | event :: events =>
    (∀ op, c.next event = some op → G c.shared op) ∧
      ∀ c', M.step c event = some c' → M.Within G c' events

theorem Within.call {G : S → Op → Prop} {c d : Config S Op} {i : Nat} {x : Call}
    {events : List (Event Call)} (hstep : M.step c (.call i x) = some d)
    (hrest : M.Within G d events) : M.Within G c (.call i x :: events) := by
  refine ⟨fun op hop => (by cases hop), fun c' hc' => ?_⟩
  rw [hstep] at hc'
  cases hc'
  exact hrest

theorem Within.run {G : S → Op → Prop} {c d : Config S Op} {i : Nat} {op : Op}
    {events : List (Event Call)} (hnext : (c.program i).head? = some op) (hop : G c.shared op)
    (hstep : M.step c (.run i) = some d) (hrest : M.Within G d events) :
    M.Within G c (.run i :: events) := by
  refine ⟨fun op' hop' => ?_, fun c' hc' => ?_⟩
  · rw [Config.next, hnext] at hop'
    cases hop'
    exact hop
  · rw [hstep] at hc'
    cases hc'
    exact hrest

variable {I : S → (Op → Prop) → Prop}

/-- Every call keeps the invariant, and so does every operation that meets the guard. -/
structure KeepsWithin (M : Threads S Op Call) (G : S → Op → Prop)
    (I : S → (Op → Prop) → Prop) : Prop where
  exec : ∀ s P P' op, I s P → P op → G s op → Advances P P' (some op) (M.exec s op).2 →
    I (M.exec s op).1 P'
  start : ∀ s P P' call s' ops, I s P → M.start s call = some (s', ops) →
    Advances P P' none ops → I s' P'

/-- **An invariant every guarded operation keeps holds after every guarded run.** -/
theorem KeepsWithin.run {G : S → Op → Prop} (h : M.KeepsWithin G I) {c c' : Config S Op}
    {events : List (Event Call)} (hrun : M.run c events = some c') (hwithin : M.Within G c events)
    (hc : I c.shared c.Pending) : I c'.shared c'.Pending := by
  induction events generalizing c with
  | nil =>
    cases hrun
    exact hc
  | cons event events ih =>
    obtain ⟨d, hstep, hrest⟩ := Option.bind_eq_some_iff.1 hrun
    refine ih hrest (hwithin.2 d hstep) ?_
    rcases M.step_cases hstep with ⟨op, -, hnext, hop, hshared, hadvances⟩ |
      ⟨call, ops, -, hstart, hadvances⟩
    · rw [hshared]
      exact h.exec _ _ _ op hc hop (hwithin.1 op hnext) hadvances
    · exact h.start _ _ _ call _ ops hc hstart hadvances

end Threads

end Plenora.Lib
