import Plenora.Core.CancellationPolls

/-!
# Runs of the tokens

From the invariants of the graph, of the waiters and of the polls to what holds of
the calls made after every run, in whatever order the operations of the threads
interleave:

    tokens.run initial events = some c → Propagates (calls events) c     (propagates)
-/

namespace Plenora.Core.Cancellation

open Plenora.Lib

/-! ## Every run -/

theorem derived_nil {p c : TokenId} : ¬ Derived [] p c := by
  rintro ⟨m, hm, -⟩
  cases hm

theorem built_initial : Built [] initial.shared where
  made := rfl
  edge _ _ hpc := absurd hpc derived_nil
  own _ _ hm := nomatch hm
  kept _ ht := nomatch ht

theorem graph_initial : Graph [] initial.shared initial.Pending := by
  have hnone (op) : ¬ initial.Pending op := by
    rintro ⟨i, hi⟩
    cases hi
  constructor
  · exact fun t _ => ⟨rfl, rfl⟩
  · exact fun p c hc => nomatch hc
  · exact fun todo parents c hp => absurd hp (hnone _)
  · exact fun p c hp => absurd hp (not_or.2 ⟨hnone _, hnone _⟩)
  · exact fun c r hp => absurd hp (hnone _)
  · exact fun t hp => absurd hp (hnone _)
  · exact fun t r hp => absurd hp (hnone _)
  · exact fun p c hpc => absurd hpc derived_nil
  · exact fun p c hpc => absurd hpc derived_nil
  · exact fun c hc => nomatch hc
  · exact fun c hc => nomatch hc
  · rintro c (hc | hc) <;> cases hc
  · exact fun entry he => nomatch he

theorem waiting_initial : Waiting initial.shared initial.Pending := by
  have hnone (op) : ¬ initial.Pending op := by
    rintro ⟨i, hi⟩
    cases hi
  constructor
  · exact fun t _ => rfl
  · exact fun w hw => nomatch hw
  · exact fun t e he => nomatch he
  · exact fun t w k hp => absurd hp (not_or.2 ⟨hnone _, hnone _⟩)
  · exact fun w k hp => absurd hp (hnone _)
  · exact fun t e he => nomatch he
  · exact fun w hreg => nomatch hreg

theorem polls_initial : Polls [] initial where
  awaited := rfl
  token _ hw := nomatch hw
  fresh _ _ := rfl
  owner _ _ hop := nomatch hop
  unique _ _ _ hop := nomatch hop
  live _ _ hk := nomatch hk
  answered _ _ hk := nomatch hk

section Runs

variable {c c' : Threads.Config Store Op} {events : List (Threads.Event Call)} {calls : List Call}

theorem graph_run (h : tokens.run initial events = some c) :
    Built (Threads.calls events) c.shared ∧ Graph (Threads.calls events) c.shared c.Pending :=
  graph_keeps.run h ⟨built_initial, graph_initial⟩

theorem waiting_run (h : tokens.run initial events = some c) : Waiting c.shared c.Pending :=
  waiting_keeps.run h waiting_initial

theorem polls_run (h : tokens.run initial events = some c) : Polls (Threads.calls events) c :=
  Threads.run_induction polls_step h polls_initial

/-- Reasons that are recorded stay. -/
def ReasonStays (s s' : Store) : Prop := ∀ t r, s.reason t = some r → s'.reason t = some r

theorem exec_reason (s : Store) (op : Op) : ReasonStays s (exec s op).1 := by
  intro t r hr
  have hresume (asker : Asker) (o : Option CancellationReason) :
      (resume s asker o).1.reason = s.reason := by
    cases asker <;> cases o <;> rfl
  cases op with
  | cas t' r' =>
    rw [exec_cas]
    split
    next hnone =>
      have hne : t ≠ t' := by
        rintro rfl
        rw [hr] at hnone
        cases hnone
      dsimp only
      rw [Function.update_of_ne hne]
      exact hr
    next => exact hr
  | wake w k | upgrade t' =>
    simp only [exec]
    split <;> exact hr
  | linking todo parents child => cases todo <;> exact hr
  | load t' asker =>
    cases hl : s.reason t' with
    | none => rwa [exec_load_none hl]
    | some r' => rwa [exec_load_some hl, hresume]
  | clock t' asker => rwa [exec_clock, hresume]
  | takeWaiters t' | spread t' r' | register w k | unregister w o => exact hr

theorem start_reason {s s' : Store} {P : Op → Prop} {call : Call} {ops : List Op}
    (h : Graph calls s P) (hstart : start s call = some (s', ops)) : ReasonStays s s' := by
  intro t r hr
  have hnew (deadline) : (newInner s deadline).reason t = some r := by
    have hne : t ≠ s.nextToken := by
      rintro rfl
      rw [(h.fresh _ (Nat.le_refl _)).1] at hr
      cases hr
    simpa [newInner, Function.update_of_ne hne] using hr
  cases call with
  | token deadline =>
    cases hstart
    exact hnew _
  | childToken parent | childTokenWithDeadline parent deadline | linked parents =>
    simp only [start, Option.ite_none_right_eq_some, Option.some.injEq, Prod.mk.injEq] at hstart
    obtain ⟨-, rfl, rfl⟩ := hstart
    exact hnew _
  | drop w =>
    simp only [start, Option.ite_none_right_eq_some] at hstart
    obtain ⟨-, hstart⟩ := hstart
    split at hstart <;> cases hstart <;> exact hr
  | clone _ | release _ | cancel _ | cancelDueToDeadline _ | fire _ | tick _ | cancelled _
  | poll _ _ =>
    simp only [start, Option.ite_none_right_eq_some, Option.some.injEq, Prod.mk.injEq] at hstart
    obtain ⟨-, rfl, rfl⟩ := hstart
    exact hr

theorem reason_stable (h : tokens.run initial events = some c) {later : List (Threads.Event Call)}
    (hlater : tokens.run c later = some c') : ReasonStays c.shared c'.shared :=
  graph_keeps.run_rel (fun _ _ _ hr => hr) (fun _ _ _ h₁ h₂ x r hr => h₂ x r (h₁ x r hr))
    (fun _ s _ op _ _ => exec_reason s op) (fun _ _ _ _ _ _ hg hs => start_reason hg.2 hs) hlater
    (graph_run h)

/-- `d` was derived from `a`, directly or not. -/
def Descends (calls : List Call) : TokenId → TokenId → Prop := Relation.TransGen (Derived calls)

/-- And the tokens from `a` down to `d` are still held. -/
def DescendsHeld (calls : List Call) (s : Store) : TokenId → TokenId → Prop :=
  Relation.TransGen fun p d => Derived calls p d ∧ held s d

theorem DescendsHeld.descends {s : Store} {a d : TokenId} (h : DescendsHeld calls s a d) :
    Descends calls a d := by
  induction h with
  | single hp => exact .single hp.1
  | tail _ hp ih => exact ih.tail hp.1

/-- Someone asked to cancel the token, or a token it descends from. -/
def Requested (calls : List Call) (d : TokenId) : Prop :=
  ∃ a, (a = d ∨ Descends calls a d) ∧ .cancel a ∈ calls

/-- A reason that is not the deadline goes back to a request. -/
theorem Graph.requested (h : Graph calls c.shared c.Pending) (hb : Built calls c.shared)
    {d : TokenId} (hd : ByRequest c.shared d) : Requested calls d := by
  induction d using Nat.strong_induction_on with
  | _ d ih =>
    rcases hd with hd | hd
    · exact ⟨d, .inl rfl, h.byRequest d hd⟩
    · obtain ⟨p, hp, hreq⟩ := h.byParent d hd
      obtain ⟨a, ha, hcall⟩ := ih p (hb.edge p d hp).1 hreq
      refine ⟨a, .inr ?_, hcall⟩
      rcases ha with rfl | ha
      · exact .single hp
      · exact ha.tail hp

theorem NotLater.trans {a b d : Option Instant} (h₁ : NotLater a b) (h₂ : NotLater b d) :
    NotLater a d := by
  cases d with
  | none => trivial
  | some d =>
    cases b with
    | none => exact h₂.elim
    | some b =>
      cases a with
      | none => exact h₁.elim
      | some a => exact Nat.le_trans h₁ h₂

theorem Built.deadline_descends {s : Store} (h : Built calls s) {a d : TokenId}
    (had : Descends calls a d) : NotLater (s.deadline d) (s.deadline a) := by
  induction had with
  | single hp => exact (h.edge _ _ hp).2
  | tail _ hp ih => exact (h.edge _ _ hp).2.trans ih

theorem expired_of_notLater {s : Store} {a d : TokenId}
    (h : NotLater (s.deadline d) (s.deadline a)) (ha : expired s a) : expired s d := by
  unfold expired at ha ⊢
  cases hda : s.deadline a with
  | none =>
    rw [hda] at ha
    cases ha
  | some x =>
    rw [hda] at h ha
    cases hdd : s.deadline d with
    | none =>
      rw [hdd] at h
      exact h.elim
    | some y =>
      rw [hdd] at h
      exact decide_eq_true (Nat.le_trans h (of_decide_eq_true ha))

/-- A recorded reason is the deadline, or someone asked above. -/
theorem Graph.reason_cases (h : Graph calls c.shared c.Pending) (hb : Built calls c.shared)
    {d : TokenId} {r : CancellationReason} (hr : c.shared.reason d = some r) :
    r = .deadline ∨ Requested calls d := by
  cases r with
  | deadline => exact .inl rfl
  | requested => exact .inr (h.requested hb (.inl hr))
  | parent => exact .inr (h.requested hb (.inr hr))

theorem Graph.quiescent (h : Graph calls c.shared c.Pending) (hq : c.Quiescent) {a d : TokenId}
    (had : DescendsHeld calls c.shared a d) (ha : c.shared.reason a ≠ none) :
    c.shared.reason d ≠ none := by
  have hedge {p x} (hp : Derived calls p x ∧ held c.shared x) (hr : c.shared.reason p ≠ none) :
      c.shared.reason x ≠ none := by
    refine (h.covered p x hp.1 hp.2 hr).resolve_right ?_
    rintro (⟨_, hp⟩ | ⟨-, _, hp⟩ | hp | ⟨_, _, hp, -⟩) <;> exact hq.not_pending _ hp
  induction had with
  | single hp => exact hedge hp ha
  | tail _ hp ih => exact hedge hp ih

/-- What a run of the tokens guarantees, told from the calls made.  A cancellation reaches a
descendant through tokens that are held: a parent knows its children by weak references. -/
structure Propagates (calls : List Call) (c : Threads.Config Store Op) : Prop where
  /-- A token none of whose handles was released is held. -/
  kept : ∀ t < (made calls).length, .release t ∉ calls → held c.shared t
  /-- The first recorded reason never changes. -/
  first_reason : ∀ later c', tokens.run c later = some c' → ReasonStays c.shared c'.shared
  /-- The deadline of a token is not later than the one asked for, nor than any parent's. -/
  deadline : ∀ d m, (made calls)[d]? = some m → NotLater (c.shared.deadline d) m.2 ∧
    ∀ p ∈ m.1, NotLater (c.shared.deadline d) (c.shared.deadline p)
  /-- An expired deadline shows in every descendant, as a deadline unless someone asked above. -/
  expired : ∀ a d, Descends calls a d → expired c.shared a →
    ∃ r, observed c.shared d = some r ∧ (r = .deadline ∨ Requested calls d)
  /-- Once the calls returned, a token someone asked to cancel is cancelled. -/
  asked : c.Quiescent → ∀ a, Asked calls a → c.shared.reason a ≠ none
  /-- So is what descends from a cancelled token. -/
  cancelled : c.Quiescent → ∀ a d, DescendsHeld calls c.shared a d → observed c.shared a ≠ none →
    observed c.shared d ≠ none
  /-- And a recorded deadline is recorded below as one, unless someone asked above. -/
  by_deadline : c.Quiescent → ∀ a d, DescendsHeld calls c.shared a d →
    c.shared.reason a = some .deadline →
    ∃ r, c.shared.reason d = some r ∧ (r = .deadline ∨ Requested calls d)
  /-- And the last poll of a future of a cancelled token was answered, or its waker was woken. -/
  woken : c.Quiescent → ∀ w t k, (awaited calls)[w]? = some t → lastPoll w calls = some k →
    c.shared.reason t ≠ none →
    (c.shared.futures w).output ≠ none ∨ k ∈ (c.shared.futures w).wokenBy

/-- **Whatever the interleaving of the calls, cancellation and deadlines reach every descendant and
every waiter.** -/
theorem propagates (events : List (Threads.Event Call)) (c : Threads.Config Store Op)
    (h : tokens.run initial events = some c) : Propagates (Threads.calls events) c := by
  obtain ⟨hb, hg⟩ := graph_run h
  have hw := waiting_run h
  have hp := polls_run h
  have hexpired (a d) (had : Descends (Threads.calls events) a d)
      (ha : Cancellation.expired c.shared a) : ∃ r, observed c.shared d = some r ∧
        (r = .deadline ∨ Requested (Threads.calls events) d) := by
    have hd := expired_of_notLater (hb.deadline_descends had) ha
    unfold observed
    cases hr : c.shared.reason d with
    | none => exact ⟨.deadline, by rw [if_pos hd]; rfl, .inl rfl⟩
    | some r => exact ⟨r, rfl, hg.reason_cases hb hr⟩
  constructor
  · exact fun t ht => hb.kept t (hb.made ▸ ht)
  · exact fun later c' hlater => reason_stable h hlater
  · exact fun d m hm => ⟨hb.own d m hm, fun p hmem => (hb.edge p d ⟨m, hm, hmem⟩).2⟩
  · exact hexpired
  · intro hq a ha
    refine (hg.asked a ha).resolve_right ?_
    rintro ⟨r, hcas⟩
    exact hq.not_pending _ hcas
  · intro hq a d had ha
    by_cases hr : c.shared.reason a = none
    · have he : Cancellation.expired c.shared a := by
        by_contra he
        exact ha (by unfold observed; rw [hr, if_neg he]; rfl)
      obtain ⟨r, hobs, -⟩ := hexpired a d had.descends he
      rw [hobs]
      exact nofun
    · obtain ⟨r, hr'⟩ := Option.ne_none_iff_exists'.1 (hg.quiescent hq had hr)
      unfold observed
      rw [hr']
      exact nofun
  · intro hq a d had ha
    obtain ⟨r, hr⟩ := Option.ne_none_iff_exists'.1 (hg.quiescent hq had (by rw [ha]; exact nofun))
    exact ⟨r, hr, hg.reason_cases hb hr⟩
  · intro hq w t k hwt hk hr
    have hlt : w < c.shared.nextFuture := hp.awaited ▸ (List.getElem?_eq_some_iff.1 hwt).1
    have htoken : (c.shared.futures w).token = t :=
      Option.some.inj ((hp.token w hlt).symm.trans hwt)
    rcases hp.answered w k hk with (houtput | ⟨hreg, hwaker⟩) | ⟨i, op, hop, -⟩
    · exact .inl houtput
    · refine .inr ?_
      rw [← hwaker]
      rcases hw.notified w hreg (hp.live w k hk) with hmem | hpending | hwoken
      · rcases hw.stale _ _ hmem (htoken ▸ hr) with hp | hp | ⟨_, hp⟩ <;>
          exact absurd hp (hq.not_pending _)
      · exact absurd hpending (hq.not_pending _)
      · exact hwoken
    · exact absurd ⟨i, hop⟩ (hq.not_pending op)

/-- A token is linked to two parents while one of them is being cancelled, a future waits for the
other, and a third child was released. -/
def raceEvents : List (Threads.Event Call) :=
  [.call 0 (.token none), .call 0 (.childToken 0), .run 0, .run 0, .run 0, .run 0,
    .call 1 (.cancelled 1), .call 1 (.poll 0 7), .run 1, .run 1, .run 1, .run 1, .run 1,
    .call 0 (.childTokenWithDeadline 0 (some 5)), .run 0, .run 0, .run 0, .run 0,
    .call 0 (.release 2), .call 0 (.linked [0, 1]), .run 0, .call 1 (.cancel 0), .run 1, .run 1,
    .run 0, .run 0, .run 1, .run 0, .run 1, .run 0, .run 0, .run 0, .run 1, .run 1, .run 1, .run 1,
    .run 1, .run 1, .run 1]

/-- The linked token is cancelled and the future woken. -/
theorem propagates_race : ∃ c, tokens.run initial raceEvents = some c ∧
    c.shared.reason 3 = some .parent ∧ 7 ∈ (c.shared.futures 0).wokenBy ∧
    Propagates (Threads.calls raceEvents) c :=
  have hrun : tokens.run initial raceEvents =
    some ((tokens.run initial raceEvents).get (by decide)) := (Option.some_get _).symm
  ⟨_, hrun, by decide, by decide, propagates raceEvents _ hrun⟩

end Runs

end Plenora.Core.Cancellation
