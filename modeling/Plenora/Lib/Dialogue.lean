import Mathlib

/-!
# Programs that send requests

A program ends, or sends a request and goes on from its answer.  Any number of
clients run their programs against one server, a request at a time in any order;
a request is refused, or takes effect with or without its answer coming back.

What a client knows of the server is its view.  Where every request keeps what is
known, a program that sends only what its views allow does so in every run:

    M.Respects G P I Knows → M.run c events = some c' → M.Within G c events →
      Holds P I Knows post c → Holds P I Knows post c'                        (Respects.run)
-/

namespace Plenora.Lib

/-- A program that sends requests of `Q` and reads answers of `A`. -/
inductive Dialogue (Q A α : Type) where
  | done (a : α)
  | ask (request : Q) (next : A → Dialogue Q A α)

namespace Dialogue

variable {Q A α β : Type}

def bind : Dialogue Q A α → (α → Dialogue Q A β) → Dialogue Q A β
  | .done a, f => f a
  | .ask request next, f => .ask request fun answer => (next answer).bind f

instance : Monad (Dialogue Q A) where
  pure := .done
  bind := bind

@[simp] theorem done_bind (a : α) (f : α → Dialogue Q A β) :
    ((Dialogue.done a : Dialogue Q A α) >>= f) = f a := rfl

@[simp] theorem ask_bind (request : Q) (next : A → Dialogue Q A α) (f : α → Dialogue Q A β) :
    (Dialogue.ask request next >>= f) = .ask request fun answer => next answer >>= f := rfl

end Dialogue

/-- A program whose requests may fail, and that may raise an error. -/
abbrev Program (ε Q A α : Type) := ExceptT ε (Dialogue Q (Except ε A)) α

namespace Program

variable {ε Q A α : Type}

def send (request : Q) : Program ε Q A A := ExceptT.mk (.ask request .done)

def ofResult (x : Except ε α) : Program ε Q A α := ExceptT.mk (.done x)

/-- The program whose error is a value. -/
def attempt (x : Program ε Q A α) : Program ε Q A (Except ε α) :=
  ExceptT.mk (x.run >>= fun result => .done (.ok result))

/-- The program without its error. -/
def suppress (x : Program ε Q A α) : Program ε Q A Unit :=
  ExceptT.mk (x.run >>= fun _ => .done (.ok ()))

end Program

/-! ## Clients and a server -/

/-- What a request of a client does, where the server performs it, and what else changes the
server. -/
structure Service (S Q A D : Type) where
  perform : S → Nat → Q → Option (A × S)
  disturb : S → D → S

inductive Served (ε : Type) where
  | answered
  | refused (error : ε)
  | unacknowledged (error : ε)

inductive Occurrence (ε D : Type) where
  | serve (client : Nat) (served : Served ε)
  | disturb (disturbance : D)

structure Clients (S Q A ε ρ : Type) where
  shared : S
  program : Nat → Dialogue Q (Except ε A) ρ

namespace Service

variable {S Q A D ε ρ V : Type} (M : Service S Q A D)

def step (c : Clients S Q A ε ρ) : Occurrence ε D → Option (Clients S Q A ε ρ)
  | .disturb disturbance => some { c with shared := M.disturb c.shared disturbance }
  | .serve i served =>
    match c.program i with
    | .done _ => none
    | .ask request next =>
      match served with
      | .refused error => some { c with program := Function.update c.program i (next (.error error)) }
      | .answered => (M.perform c.shared i request).map fun r =>
        ⟨r.2, Function.update c.program i (next (.ok r.1))⟩
      | .unacknowledged error => (M.perform c.shared i request).map fun r =>
        ⟨r.2, Function.update c.program i (next (.error error))⟩

def run (c : Clients S Q A ε ρ) : List (Occurrence ε D) → Option (Clients S Q A ε ρ)
  | [] => some c
  | event :: events => (M.step c event).bind (run · events)

/-- Every request of the run meets the guard in the state it is sent to. -/
def Within (M : Service S Q A D) (G : S → Nat → Q → Prop) (c : Clients S Q A ε ρ) :
    List (Occurrence ε D) → Prop
  | [] => True
  | event :: events =>
    (∀ i served request next, event = .serve i served → c.program i = .ask request next →
      G c.shared i request) ∧
      ∀ c', M.step c event = some c' → M.Within G c' events

theorem Within.append {M : Service S Q A D} {G : S → Nat → Q → Prop} {c : Clients S Q A ε ρ}
    {events more : List (Occurrence ε D)} (h : M.Within G c events)
    (hmore : ∀ c', M.run c events = some c' → M.Within G c' more) :
    M.Within G c (events ++ more) := by
  induction events generalizing c with
  | nil => exact hmore c rfl
  | cons event events ih =>
    refine ⟨h.1, fun c' hc' => ih (h.2 c' hc') fun d hd => hmore d ?_⟩
    rw [run, hc']
    exact hd

theorem Within.serve {M : Service S Q A D} {G : S → Nat → Q → Prop} {c c' : Clients S Q A ε ρ}
    {events : List (Occurrence ε D)} {i : Nat} {served : Served ε} {request : Q}
    {next : Except ε A → Dialogue Q (Except ε A) ρ} (hprogram : c.program i = .ask request next)
    (hrequest : G c.shared i request) (hstep : M.step c (.serve i served) = some c')
    (hrest : M.Within G c' events) : M.Within G c (.serve i served :: events) := by
  refine ⟨fun j served' request' next' heq hask => ?_, fun d hd => ?_⟩
  · cases heq
    rw [hprogram] at hask
    cases hask
    exact hrequest
  · rw [hstep] at hd
    cases hd
    exact hrest

/-- What a step can do. -/
theorem step_cases {c c' : Clients S Q A ε ρ} {event : Occurrence ε D}
    (h : M.step c event = some c') :
    (∃ disturbance, c'.shared = M.disturb c.shared disturbance ∧ c'.program = c.program) ∨
    ∃ i served request next result, event = .serve i served ∧ c.program i = .ask request next ∧
      c'.program = Function.update c.program i (next result) ∧
      ((∃ e, result = .error e ∧ c'.shared = c.shared) ∨
        ∃ answer, M.perform c.shared i request = some (answer, c'.shared) ∧
          (result = .ok answer ∨ ∃ e, result = .error e)) := by
  cases event with
  | disturb disturbance =>
    cases h
    exact .inl ⟨disturbance, rfl, rfl⟩
  | serve i served =>
    simp only [step] at h
    split at h
    next => cases h
    next request next hprogram =>
      refine .inr ⟨i, served, request, next, ?_⟩
      cases served with
      | refused error =>
        cases h
        exact ⟨.error error, rfl, hprogram, rfl, .inl ⟨error, rfl, rfl⟩⟩
      | answered =>
        obtain ⟨⟨answer, s⟩, hperform, rfl⟩ := Option.map_eq_some_iff.1 h
        exact ⟨.ok answer, rfl, hprogram, rfl, .inr ⟨answer, hperform, .inl rfl⟩⟩
      | unacknowledged error =>
        obtain ⟨⟨answer, s⟩, hperform, rfl⟩ := Option.map_eq_some_iff.1 h
        exact ⟨.error error, rfl, hprogram, rfl, .inr ⟨answer, hperform, .inr ⟨error, rfl⟩⟩⟩

end Service

/-! ## Views -/

/-- What a client may send in a view of the server, and what view the answer leaves. -/
structure Protocol (V Q A ε : Type) where
  allows : V → Q → Prop
  after : V → Q → Except ε A → V → Prop

namespace Protocol

variable {V Q A ε α β : Type} (P : Protocol V Q A ε)

/-- From the view, the program sends only what its views allow, and ends with `post`. -/
def Ensures (post : V → α → Prop) : V → Dialogue Q (Except ε A) α → Prop
  | v, .done a => post v a
  | v, .ask request next =>
    P.allows v request ∧ ∀ result v', P.after v request result v' → Ensures post v' (next result)

variable {P}

theorem Ensures.imp {post post' : V → α → Prop} {v : V} {x : Dialogue Q (Except ε A) α}
    (h : P.Ensures post v x) (hpost : ∀ v a, post v a → post' v a) : P.Ensures post' v x := by
  induction x generalizing v with
  | done a => exact hpost v a h
  | ask request next ih => exact ⟨h.1, fun result v' hafter => ih result (h.2 result v' hafter)⟩

theorem Ensures.bind {post : V → α → Prop} {post' : V → β → Prop} {v : V}
    {x : Dialogue Q (Except ε A) α} {f : α → Dialogue Q (Except ε A) β} (hx : P.Ensures post v x)
    (hf : ∀ v a, post v a → P.Ensures post' v (f a)) : P.Ensures post' v (x >>= f) := by
  induction x generalizing v with
  | done a => exact hf v a hx
  | ask request next ih => exact ⟨hx.1, fun result v' hafter => ih result (hx.2 result v' hafter)⟩

/-- A program with errors: how it ends where it raises none. -/
def Yields (P : Protocol V Q A ε) (v : V) (x : Program ε Q A α) (post : V → α → Prop) : Prop :=
  P.Ensures (fun v result => ∀ a, result = .ok a → post v a) v x.run

variable {v : V} {post : V → α → Prop}

theorem Yields.imp {post' : V → α → Prop} {x : Program ε Q A α} (h : P.Yields v x post)
    (hpost : ∀ v a, post v a → post' v a) : P.Yields v x post' :=
  Ensures.imp h fun v _ hr a ha => hpost v a (hr a ha)

theorem yields_pure {a : α} (h : post v a) : P.Yields v (pure a) post := by
  intro b hb
  cases hb
  exact h

theorem yields_throw {e : ε} : P.Yields v (throw e) post := fun _ h => (by cases h)

theorem yields_ofResult_bind {x : Except ε β} {f : β → Program ε Q A α}
    (h : ∀ b, x = .ok b → P.Yields v (f b) post) :
    P.Yields v (Program.ofResult x >>= f) post := by
  cases x with
  | ok b => exact h b rfl
  | error e => exact fun _ he => (by cases he)

theorem Yields.bind {post' : V → β → Prop} {x : Program ε Q A α} {f : α → Program ε Q A β}
    (hx : P.Yields v x post) (hf : ∀ v a, post v a → P.Yields v (f a) post') :
    P.Yields v (x >>= f) post' := by
  refine Ensures.bind hx fun v' r hr => ?_
  cases r with
  | ok a => exact hf v' a (hr a rfl)
  | error e => exact fun _ h => (by cases h)

theorem Yields.attempt {x : Program ε Q A α} (h : P.Yields v x post) :
    P.Yields v (Program.attempt x) fun v r => ∀ a, r = .ok a → post v a := by
  refine Ensures.bind h fun v' r hr => ?_
  intro r' hr' a ha
  cases hr'
  exact hr a ha

theorem Yields.suppress {x : Program ε Q A α} (h : P.Yields v x post) :
    P.Yields v (Program.suppress x) fun _ _ => True :=
  Ensures.bind h fun _ _ _ _ _ => trivial

theorem yields_send {request : Q} {post : V → A → Prop} (hallows : P.allows v request)
    (hafter : ∀ a v', P.after v request (.ok a) v' → post v' a) :
    P.Yields v (Program.send request) post := by
  refine ⟨hallows, fun r v' h a ha => ?_⟩
  cases ha
  exact hafter a v' h

end Protocol

/-! ## Every run -/

namespace Service

variable {S Q A D ε ρ V : Type} {M : Service S Q A D} {G : S → Nat → Q → Prop}
  {P : Nat → Protocol V Q A ε} {I : S → Prop} {Knows : S → Nat → V → Prop}
  {post : Nat → V → ρ → Prop}

/-- Requests that the views allow keep the invariant and what every client knows. -/
structure Respects (M : Service S Q A D) (G : S → Nat → Q → Prop) (P : Nat → Protocol V Q A ε)
    (I : S → Prop) (Knows : S → Nat → V → Prop) : Prop where
  performed : ∀ s i v request answer s', I s → Knows s i v → (P i).allows v request →
    G s i request → M.perform s i request = some (answer, s') →
      I s' ∧ ∃ v', (P i).after v request (.ok answer) v' ∧ Knows s' i v'
  failed : ∀ s i v request e, I s → Knows s i v → (P i).allows v request →
    ∃ v', (P i).after v request (.error e) v' ∧ Knows s i v' ∧
      ∀ answer s', M.perform s i request = some (answer, s') → Knows s' i v'
  others : ∀ s i v request answer s', I s → Knows s i v → (P i).allows v request →
    M.perform s i request = some (answer, s') → ∀ j w, j ≠ i → Knows s j w → Knows s' j w
  disturbed : ∀ s d, I s → I (M.disturb s d) ∧ ∀ i v, Knows s i v → Knows (M.disturb s d) i v

/-- The invariant, and every client in a view from which its program ends as it should. -/
structure Holds (P : Nat → Protocol V Q A ε) (I : S → Prop) (Knows : S → Nat → V → Prop)
    (post : Nat → V → ρ → Prop) (c : Clients S Q A ε ρ) : Prop where
  shared : I c.shared
  client : ∀ i, ∃ v, Knows c.shared i v ∧ (P i).Ensures (post i) v (c.program i)

theorem Respects.step (h : M.Respects G P I Knows) {c c' : Clients S Q A ε ρ}
    {event : Occurrence ε D} (hstep : M.step c event = some c')
    (hguard : ∀ i served request next, event = .serve i served → c.program i = .ask request next →
      G c.shared i request)
    (hc : Holds P I Knows post c) : Holds P I Knows post c' := by
  rcases M.step_cases hstep with ⟨d, hshared, hprogram⟩ |
    ⟨i, served, request, next, result, hevent, hnext, hprogram, hserved⟩
  · obtain ⟨hinv, hknows⟩ := h.disturbed c.shared d hc.shared
    refine ⟨hshared ▸ hinv, fun i => ?_⟩
    obtain ⟨v, hv, hensures⟩ := hc.client i
    rw [hshared, hprogram]
    exact ⟨v, hknows i v hv, hensures⟩
  · obtain ⟨v, hv, hensures⟩ := hc.client i
    rw [hnext] at hensures
    obtain ⟨hallows, hensures⟩ := hensures
    have hown : ∀ v', (P i).after v request result v' → Knows c'.shared i v' →
        I c'.shared → (∀ j w, j ≠ i → Knows c.shared j w → Knows c'.shared j w) →
        Holds P I Knows post c' := by
      intro v' hafter hknows hinv hothers
      refine ⟨hinv, fun j => ?_⟩
      rw [hprogram]
      by_cases hj : j = i
      · subst hj
        rw [Function.update_self]
        exact ⟨v', hknows, hensures result v' hafter⟩
      · rw [Function.update_of_ne hj]
        obtain ⟨w, hw, hw'⟩ := hc.client j
        exact ⟨w, hothers j w hj hw, hw'⟩
    rcases hserved with ⟨e, rfl, hshared⟩ | ⟨answer, hperform, hresult⟩
    · obtain ⟨v', hafter, hknows, -⟩ := h.failed c.shared i v request e hc.shared hv hallows
      refine hown v' hafter (hshared ▸ hknows) (hshared ▸ hc.shared) ?_
      exact fun j w _ hw => hshared ▸ hw
    · have hothers := h.others c.shared i v request answer c'.shared hc.shared hv hallows hperform
      obtain ⟨hinv, v', hafter, hknows⟩ := h.performed c.shared i v request answer c'.shared
        hc.shared hv hallows (hguard i served request next hevent hnext) hperform
      rcases hresult with rfl | ⟨e, rfl⟩
      · exact hown v' hafter hknows hinv hothers
      · obtain ⟨w, hafter, -, hknows⟩ := h.failed c.shared i v request e hc.shared hv hallows
        exact hown w hafter (hknows answer c'.shared hperform) hinv hothers

/-- **What every request keeps holds after every run.** -/
theorem Respects.run (h : M.Respects G P I Knows) {c c' : Clients S Q A ε ρ}
    {events : List (Occurrence ε D)} (hrun : M.run c events = some c')
    (hwithin : M.Within G c events) (hc : Holds P I Knows post c) : Holds P I Knows post c' := by
  induction events generalizing c with
  | nil =>
    cases hrun
    exact hc
  | cons event events ih =>
    obtain ⟨d, hstep, hrest⟩ := Option.bind_eq_some_iff.1 hrun
    exact ih hrest (hwithin.2 d hstep) (h.step hstep hwithin.1 hc)

end Service

end Plenora.Lib
