import Mathlib

/-!
# Fallible steps: inverting a successful `Except` computation

A step that returned a value passed every check before it.  The rules below turn
`… = .ok r` for a chain of binds, refusals and `okOr` into the facts that hold at
each step:

    (x >>= f) = .ok b            ↔  ∃ a, x = .ok a ∧ f a = .ok b     (bind_eq_ok)
    failIf c e = .ok ()          ↔  ¬ c                              (failIf_eq_ok)
    okOr o e = .ok a             ↔  o = some a                       (okOr_eq_ok)
-/

namespace Plenora.Lib

variable {ε α β : Type}

/-- The value of `o`, or the error `e` when there is none. -/
def okOr (o : Option α) (e : ε) : Except ε α :=
  match o with
  | some a => .ok a
  | none => .error e

/-- Refuse with `e` when `c` holds, go on otherwise. -/
def failIf (c : Prop) [Decidable c] (e : ε) : Except ε Unit :=
  if c then .error e else .ok ()

theorem bind_eq_ok {x : Except ε α} {f : α → Except ε β} {b : β} :
    (x >>= f) = .ok b ↔ ∃ a, x = .ok a ∧ f a = .ok b := by
  cases x with
  | error e => simp [bind, Except.bind]
  | ok a => simp [bind, Except.bind]

@[simp] theorem ok_bind (a : α) (f : α → Except ε β) :
    ((Except.ok a : Except ε α) >>= f) = f a := rfl

theorem map_eq_ok {x : Except ε α} {f : α → β} {b : β} :
    x.map f = .ok b ↔ ∃ a, x = .ok a ∧ f a = b := by
  cases x with
  | error e => simp [Except.map]
  | ok a => simp [Except.map]

theorem bind_eq_error {x : Except ε α} {f : α → Except ε β} {e : ε} :
    (x >>= f) = .error e ↔ x = .error e ∨ ∃ a, x = .ok a ∧ f a = .error e := by
  cases x with
  | error e' => simp [bind, Except.bind]
  | ok a => simp [bind, Except.bind]

theorem okOr_eq_ok {o : Option α} {e : ε} {a : α} : okOr o e = .ok a ↔ o = some a := by
  cases o with
  | none => simp [okOr]
  | some b => simp [okOr]

@[simp] theorem okOr_some (a : α) (e : ε) : okOr (some a) e = .ok a := rfl

theorem failIf_eq_ok {c : Prop} [Decidable c] {e : ε} {u : Unit} :
    failIf c e = .ok u ↔ ¬ c := by
  unfold failIf
  split
  next h => simp [h]
  next h => simp [h]

theorem failIf_eq_error {c : Prop} [Decidable c] {e e' : ε} :
    failIf c e = .error e' ↔ c ∧ e = e' := by
  unfold failIf
  split
  next h => simp [h]
  next h => simp [h]

@[simp] theorem failIf_neg {c : Prop} [Decidable c] {e : ε} (h : ¬ c) :
    failIf c e = .ok () := by
  simp [failIf, h]

/-- A chain of fallible steps over a list is the list of its steps. -/
theorem mapM_eq_ok {f : α → Except ε β} {as : List α} {bs : List β} :
    as.mapM f = .ok bs ↔ List.Forall₂ (fun a b => f a = .ok b) as bs := by
  induction as generalizing bs with
  | nil =>
    rw [List.mapM_nil, List.forall₂_nil_left_iff]
    exact ⟨fun h => (Except.ok.inj h).symm, fun h => h ▸ rfl⟩
  | cons a as ih =>
    rw [List.mapM_cons, bind_eq_ok, List.forall₂_cons_left_iff]
    refine ⟨?_, ?_⟩
    · rintro ⟨b, hb, h⟩
      obtain ⟨more, hmore, h⟩ := bind_eq_ok.1 h
      cases h
      exact ⟨b, more, hb, ih.1 hmore, rfl⟩
    · rintro ⟨b, more, hb, hmore, rfl⟩
      refine ⟨b, hb, ?_⟩
      rw [ih.2 hmore]
      rfl

/-- Where every step succeeds, the list is mapped. -/
theorem exists_map_of_mapM [Inhabited β] {f : α → Except ε β} {as : List α} {bs : List β}
    (h : as.mapM f = .ok bs) : ∃ g : α → β, (∀ a ∈ as, f a = .ok (g a)) ∧ bs = as.map g := by
  refine ⟨fun a => (f a).toOption.getD default, ?_⟩
  have hsteps := mapM_eq_ok.1 h
  clear h
  induction hsteps with
  | nil => exact ⟨fun a ha => (by cases ha), rfl⟩
  | cons hb _ ih =>
    obtain ⟨hall, hbs⟩ := ih
    refine ⟨List.forall_mem_cons.2 ⟨?_, hall⟩, ?_⟩
    · simp only [hb]
      rfl
    · rw [List.map_cons, ← hbs, hb]
      rfl

/-! ## Steps that succeed exactly when -/

/-- The step succeeds exactly when `c` holds, and then with a value of `P`. -/
structure Decides (x : Except ε α) (c : Prop) (P : α → Prop) : Prop where
  ok : c → ∃ a, x = .ok a ∧ P a
  error : ¬ c → ∃ e, x = .error e

theorem Decides.bind {x : Except ε α} {f : α → Except ε β} {c d : Prop} {P : α → Prop}
    {Q : β → Prop} (hx : Decides x c P) (hf : ∀ a, P a → Decides (f a) d Q) :
    Decides (x >>= f) (c ∧ d) Q := by
  by_cases hc : c
  · obtain ⟨a, rfl, ha⟩ := hx.ok hc
    refine ⟨fun h => (hf a ha).ok h.2, fun h => (hf a ha).error fun hd => h ⟨hc, hd⟩⟩
  · obtain ⟨e, rfl⟩ := hx.error hc
    exact ⟨fun h => absurd h.1 hc, fun _ => ⟨e, rfl⟩⟩

/-- A step that always succeeds. -/
theorem Decides.andThen {x : Except ε α} {f : α → Except ε β} {d : Prop} {P : α → Prop}
    {Q : β → Prop} (hx : Decides x True P) (hf : ∀ a, P a → Decides (f a) d Q) :
    Decides (x >>= f) d Q := by
  have hboth := hx.bind hf
  exact ⟨fun h => hboth.ok ⟨trivial, h⟩, fun h => hboth.error fun hd => h hd.2⟩

theorem Decides.congr {x : Except ε α} {c d : Prop} {P : α → Prop} (hx : Decides x c P)
    (h : d ↔ c) : Decides x d P :=
  ⟨fun hd => hx.ok (h.1 hd), fun hd => hx.error fun hc => hd (h.2 hc)⟩

theorem Decides.imp {x : Except ε α} {c : Prop} {P Q : α → Prop} (hx : Decides x c P)
    (h : ∀ a, P a → Q a) : Decides x c Q := by
  refine ⟨fun hc => ?_, hx.error⟩
  obtain ⟨a, ha, hp⟩ := hx.ok hc
  exact ⟨a, ha, h a hp⟩

theorem decides_ok {a : α} {P : α → Prop} (ha : P a) : Decides (.ok a : Except ε α) True P :=
  ⟨fun _ => ⟨a, rfl, ha⟩, fun h => absurd trivial h⟩

theorem decides_failIf {c : Prop} [Decidable c] {e : ε} :
    Decides (failIf c e) (¬ c) fun _ => True :=
  ⟨fun h => ⟨(), failIf_neg h, trivial⟩, fun h => ⟨e, failIf_eq_error.2 ⟨not_not.1 h, rfl⟩⟩⟩

theorem Decides.of_ok {x : Except ε α} {a : α} {P : α → Prop} (h : x = .ok a) (ha : P a) :
    Decides x True P :=
  h ▸ decides_ok ha

theorem Decides.ok_iff {x : Except ε α} {c : Prop} {P : α → Prop} (h : Decides x c P) :
    (∃ a, x = .ok a) ↔ c := by
  refine ⟨fun ⟨a, ha⟩ => ?_, fun hc => ?_⟩
  · by_contra hc
    obtain ⟨e, he⟩ := h.error hc
    cases ha.symm.trans he
  · obtain ⟨a, ha, -⟩ := h.ok hc
    exact ⟨a, ha⟩

end Plenora.Lib
