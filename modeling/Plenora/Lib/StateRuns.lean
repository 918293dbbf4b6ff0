import Plenora.Lib.Outcome

/-!
# Runs of fallible steps over a state

A step of type `StateT σ (Except ε) α` that succeeded from a state, taken apart:

    (x >>= f).run s = .ok r ↔ ∃ a s', x.run s = .ok (a, s') ∧ (f a).run s' = .ok r   (run_bind)

and the same for steps over a list from left to right (`mapM_cons`, `mapM_append`).
-/

namespace Plenora.Lib.StateRuns

variable {σ ε α β : Type} {s s' : σ}

theorem run_bind {x : StateT σ (Except ε) α} {f : α → StateT σ (Except ε) β} {r : β × σ} :
    (x >>= f).run s = .ok r ↔ ∃ a s', x.run s = .ok (a, s') ∧ (f a).run s' = .ok r := by
  rw [StateT.run_bind, bind_eq_ok]
  simp

theorem run_pure {a : α} {r : α × σ} :
    (pure a : StateT σ (Except ε) α).run s = .ok r ↔ r = (a, s) := by
  rw [StateT.run_pure]
  exact ⟨fun h => (Except.ok.inj h).symm, fun h => congrArg _ h.symm⟩

theorem run_throw {e : ε} {r : α × σ} : ¬ (throw e : StateT σ (Except ε) α).run s = .ok r := by
  intro h
  cases h

theorem run_lift {x : Except ε α} {r : α × σ} :
    (liftM x : StateT σ (Except ε) α).run s = .ok r ↔ ∃ a, x = .ok a ∧ r = (a, s) := by
  cases x with
  | error e => simp
  | ok a => simp [eq_comm]

theorem run_lift_bind {x : Except ε α} {f : α → StateT σ (Except ε) β} {r : β × σ} :
    ((liftM x : StateT σ (Except ε) α) >>= f).run s = .ok r ↔
      ∃ a, x = .ok a ∧ (f a).run s = .ok r := by
  rw [run_bind]
  simp only [run_lift, Prod.mk.injEq]
  constructor
  · rintro ⟨a, _, ⟨_, hx, rfl, rfl⟩, hf⟩
    exact ⟨a, hx, hf⟩
  · rintro ⟨a, hx, hf⟩
    exact ⟨a, s, ⟨a, hx, rfl, rfl⟩, hf⟩

section Lists

variable {f : α → StateT σ (Except ε) β} {as as' : List α} {bs bs' : List β}

theorem mapM_nil {r : List β × σ} : (([] : List α).mapM f).run s = .ok r ↔ r = ([], s) := run_pure

theorem mapM_cons {a : α} : ((a :: as).mapM f).run s = .ok (bs, s') ↔
    ∃ b t bs', (f a).run s = .ok (b, t) ∧ (as.mapM f).run t = .ok (bs', s') ∧ bs = b :: bs' := by
  rw [List.mapM_cons, run_bind]
  simp only [run_bind, run_pure, Prod.mk.injEq]
  constructor
  · rintro ⟨b, t, hb, bs', t', hbs, rfl, rfl⟩
    exact ⟨b, t, bs', hb, hbs, rfl⟩
  · rintro ⟨b, t, bs', hb, hbs, rfl⟩
    exact ⟨b, t, hb, bs', s', hbs, rfl, rfl⟩

theorem mapM_append {t : σ} (h : (as.mapM f).run s = .ok (bs, t))
    (h' : (as'.mapM f).run t = .ok (bs', s')) :
    ((as ++ as').mapM f).run s = .ok (bs ++ bs', s') := by
  rw [List.mapM_append, run_bind]
  refine ⟨bs, t, h, ?_⟩
  rw [run_bind]
  exact ⟨bs', s', h', rfl⟩

theorem mapM_length (h : (as.mapM f).run s = .ok (bs, s')) : bs.length = as.length := by
  induction as generalizing s bs with
  | nil =>
    obtain ⟨rfl, -⟩ := Prod.mk.inj (mapM_nil.1 h)
    rfl
  | cons a as ih =>
    obtain ⟨b, t, bs, -, hbs, rfl⟩ := mapM_cons.1 h
    rw [List.length_cons, List.length_cons, ih hbs]

end Lists

end Plenora.Lib.StateRuns
