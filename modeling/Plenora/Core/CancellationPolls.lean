import Plenora.Core.CancellationWaiters

/-!
# The polls of the futures

A future is in the hands of one call at a time.  What the last poll of a future
leaves behind, told from the calls made: an answer, or its waker registered, or the
poll is still going on.

    Polls calls c → tokens.step c event = some c' → Polls (calls ++ event.made) c'
                                                                        (polls_step)
-/

namespace Plenora.Core.Cancellation

open Plenora.Lib

/-! ## The calls on a future -/

theorem lastPoll_append (w : FutureId) (calls : List Call) (call : Call) :
    lastPoll w (calls ++ [call]) = call.leaves w (lastPoll w calls) := by
  simp [lastPoll]

theorem awaited_append (calls : List Call) (call : Call) :
    awaited (calls ++ [call]) = awaited calls ++ call.awaits := by
  simp [awaited]

/-- The future whose poll or drop has the operation to do. -/
def Op.future : Op → Option FutureId
  | .load _ (.firstCheck w _) | .load _ (.secondCheck w) | .clock _ (.firstCheck w _)
  | .clock _ (.secondCheck w) | .register w _ | .unregister w _ => some w
  | _ => none

/-- What the calls left of the future while the operation is to be done. -/
def Op.Expects (calls : List Call) (s : Store) : Op → Prop
  | .load _ (.firstCheck w k) | .clock _ (.firstCheck w k) | .register w k =>
    lastPoll w calls = some k
  | .load _ (.secondCheck w) | .clock _ (.secondCheck w) | .unregister w (some _) =>
    lastPoll w calls = some (s.futures w).waker ∧ (s.futures w).registered
  | .unregister w none => lastPoll w calls = none
  | _ => True

theorem Op.Expects.congr {calls calls' : List Call} {s s' : Store} {op : Op} {w : FutureId}
    (h : op.Expects calls s) (hop : op.future = some w) (hlast : lastPoll w calls' = lastPoll w calls)
    (hsame : (s'.futures w).waker = (s.futures w).waker ∧
      (s'.futures w).registered = (s.futures w).registered) : op.Expects calls' s' := by
  obtain ⟨hwaker, hregistered⟩ := hsame
  cases op with
  | load t asker | clock t asker =>
    cases asker with
    | inherit c => trivial
    | firstCheck v k | secondCheck v =>
      cases hop
      simpa only [Op.Expects, hlast, hwaker, hregistered] using h
  | register v k =>
    cases hop
    simpa only [Op.Expects, hlast] using h
  | unregister v o =>
    cases hop
    cases o <;> simpa only [Op.Expects, hlast, hwaker, hregistered] using h
  | _ => trivial

/-- The poll that gave the waker left an answer, or the waker registered. -/
def Answered (future : Cancelled) (k : Waker) : Prop :=
  future.output ≠ none ∨ future.registered ∧ future.waker = k

/-- The call that has a future goes on with it, or leaves the answer of the last poll. -/
structure Goes (calls : List Call) (s : Store) (w : FutureId) (s' : Store) (new : List Op) :
    Prop where
  next : s'.nextFuture = s.nextFuture
  others : ∀ v, v ≠ w → s'.futures v = s.futures v
  token : (s'.futures w).token = (s.futures w).token
  live : ∀ k, lastPoll w calls = some k → ¬ (s'.futures w).dropped
  answer : (∃ op, new = [op] ∧ op.future = some w ∧ op.Expects calls s' ∧ (s'.futures w).busy) ∨
    new = [] ∧ ∀ k, lastPoll w calls = some k → Answered (s'.futures w) k

theorem Goes.update {calls : List Call} {s s' : Store} {w : FutureId} {new : List Op}
    {value : Cancelled} (hnext : s'.nextFuture = s.nextFuture)
    (hfutures : s'.futures = Function.update s.futures w value)
    (htoken : value.token = (s.futures w).token)
    (hlive : ∀ k, lastPoll w calls = some k → ¬ value.dropped)
    (hanswer : (∃ op, new = [op] ∧ op.future = some w ∧ op.Expects calls s' ∧ value.busy) ∨
      new = [] ∧ ∀ k, lastPoll w calls = some k → Answered value k) : Goes calls s w s' new := by
  have hself : s'.futures w = value := by rw [hfutures, Function.update_self]
  exact ⟨hnext, fun v hv => by rw [hfutures, Function.update_of_ne hv], hself ▸ htoken,
    hself ▸ hlive, hself ▸ hanswer⟩

structure Polls (calls : List Call) (c : Threads.Config Store Op) : Prop where
  awaited : (awaited calls).length = c.shared.nextFuture
  token : ∀ w < c.shared.nextFuture,
    (Cancellation.awaited calls)[w]? = some (c.shared.futures w).token
  fresh : ∀ w, c.shared.nextFuture ≤ w → lastPoll w calls = none
  owner : ∀ i, ∀ op ∈ c.program i, ∀ w, op.future = some w → c.program i = [op] ∧
    w < c.shared.nextFuture ∧ (c.shared.futures w).busy ∧ op.Expects calls c.shared
  unique : ∀ i j, ∀ op ∈ c.program i, ∀ op' ∈ c.program j, ∀ w, op.future = some w →
    op'.future = some w → i = j
  live : ∀ w k, lastPoll w calls = some k → ¬ (c.shared.futures w).dropped
  answered : ∀ w k, lastPoll w calls = some k →
    Answered (c.shared.futures w) k ∨ ∃ i, ∃ op ∈ c.program i, op.future = some w

section Steps

variable {calls calls' : List Call} {c : Threads.Config Store Op} {s' : Store} {i : Nat}
  {new : List Op}

/-- Steps on the graph leave the futures alone, but for the wakers that are woken. -/
theorem Polls.neutral (h : Polls calls c) (hold : ∀ op ∈ c.program i, op.future = none)
    (hnew : ∀ op ∈ new, op.future = none) (hlast : ∀ w, lastPoll w calls' = lastPoll w calls)
    (hawaited : Cancellation.awaited calls' = Cancellation.awaited calls)
    (hnext : s'.nextFuture = c.shared.nextFuture)
    (hfutures : ∀ w, ∃ woken, s'.futures w = { c.shared.futures w with wokenBy := woken }) :
    Polls calls' ⟨s', Function.update c.program i new⟩ := by
  have hprogram (j op w) (hop : op ∈ Function.update c.program i new j)
      (hw : op.future = some w) : j ≠ i ∧ op ∈ c.program j := by
    by_cases hj : j = i
    · subst hj
      rw [Function.update_self] at hop
      rw [hnew op hop] at hw
      cases hw
    · exact ⟨hj, by rwa [Function.update_of_ne hj] at hop⟩
  have hsame (w) : (s'.futures w).token = (c.shared.futures w).token ∧
      (s'.futures w).busy = (c.shared.futures w).busy ∧
      (s'.futures w).dropped = (c.shared.futures w).dropped ∧
      (s'.futures w).output = (c.shared.futures w).output ∧
      (s'.futures w).waker = (c.shared.futures w).waker ∧
      (s'.futures w).registered = (c.shared.futures w).registered := by
    obtain ⟨woken, heq⟩ := hfutures w
    rw [heq]
    exact ⟨rfl, rfl, rfl, rfl, rfl, rfl⟩
  refine ⟨hawaited ▸ hnext ▸ h.awaited, ?_, ?_, ?_, ?_, ?_, ?_⟩ <;> dsimp only
  · intro w hw
    rw [hawaited, (hsame w).1]
    exact h.token w (hnext ▸ hw)
  · exact fun w hw => (hlast w).trans (h.fresh w (hnext ▸ hw))
  · intro j op hop w hw
    obtain ⟨hj, hop⟩ := hprogram j op w hop hw
    obtain ⟨h₁, h₂, h₃, h₄⟩ := h.owner j op hop w hw
    rw [Function.update_of_ne hj, hnext, (hsame w).2.1]
    exact ⟨h₁, h₂, h₃, h₄.congr hw (hlast w) (hsame w).2.2.2.2⟩
  · exact fun j j' op hop op' hop' w hw hw' =>
      h.unique j j' op (hprogram j op w hop hw).2 op' (hprogram j' op' w hop' hw').2 w hw hw'
  · exact fun w k hk => (hsame w).2.2.1 ▸ h.live w k (hlast w ▸ hk)
  · intro w k hk
    rw [Answered, (hsame w).2.2.2.1, (hsame w).2.2.2.2.1, (hsame w).2.2.2.2.2]
    refine (h.answered w k (hlast w ▸ hk)).imp id ?_
    rintro ⟨j, op, hop, hw⟩
    have hj : j ≠ i := by
      rintro rfl
      rw [hold op hop] at hw
      cases hw
    exact ⟨j, op, by rwa [Function.update_of_ne hj], hw⟩

/-- A step on one future, by the thread that has it. -/
theorem Polls.own {w : FutureId} (h : Polls calls c) (hw : w < c.shared.nextFuture)
    (hold : ∀ op ∈ c.program i, op.future = some w)
    (hothers : ∀ j, j ≠ i → ∀ op ∈ c.program j, op.future ≠ some w)
    (hlast : ∀ v, v ≠ w → lastPoll v calls' = lastPoll v calls)
    (hawaited : Cancellation.awaited calls' = Cancellation.awaited calls)
    (hgoes : Goes calls' c.shared w s' new) :
    Polls calls' ⟨s', Function.update c.program i new⟩ := by
  obtain ⟨hnext, hfutures, htoken, hlive, hnew⟩ := hgoes
  have hmine (op) (hop : op ∈ new) : new = [op] ∧ op.future = some w ∧ op.Expects calls' s' ∧
      (s'.futures w).busy := by
    rcases hnew with ⟨op', rfl, hop'⟩ | ⟨rfl, -⟩
    · cases List.mem_singleton.1 hop
      exact ⟨rfl, hop'⟩
    · cases hop
  -- another thread has another future
  have hother (j op v) (hj : j ≠ i) (hop : op ∈ c.program j) (hv : op.future = some v) : v ≠ w := by
    rintro rfl
    exact hothers j hj op hop hv
  refine ⟨hawaited ▸ hnext ▸ h.awaited, ?_, ?_, ?_, ?_, ?_, ?_⟩ <;> dsimp only
  · intro v hv
    rw [hawaited]
    by_cases heq : v = w
    · subst heq
      rw [htoken]
      exact h.token v hw
    · rw [hfutures v heq]
      exact h.token v (hnext ▸ hv)
  · intro v hv
    have hne : v ≠ w := by
      rintro rfl
      exact absurd hw (Nat.not_lt.2 (hnext ▸ hv))
    exact (hlast v hne).trans (h.fresh v (hnext ▸ hv))
  · intro j op hop v hv
    by_cases hj : j = i
    · subst hj
      rw [Function.update_self] at hop ⊢
      obtain ⟨h₁, h₂, h₃, h₄⟩ := hmine op hop
      cases h₂.symm.trans hv
      exact ⟨h₁, hnext ▸ hw, h₄, h₃⟩
    · rw [Function.update_of_ne hj] at hop ⊢
      obtain ⟨h₁, h₂, h₃, h₄⟩ := h.owner j op hop v hv
      have hne := hother j op v hj hop hv
      rw [hnext, hfutures v hne]
      exact ⟨h₁, h₂, h₃, h₄.congr hv (hlast v hne) (by rw [hfutures v hne]; exact ⟨rfl, rfl⟩)⟩
  · intro j j' op hop op' hop' v hv hv'
    by_cases hj : j = i <;> by_cases hj' : j' = i
    · exact hj.trans hj'.symm
    · subst hj
      rw [Function.update_self] at hop
      rw [Function.update_of_ne hj'] at hop'
      cases (hmine op hop).2.1.symm.trans hv
      exact absurd hv' (hothers j' hj' op' hop')
    · subst hj'
      rw [Function.update_self] at hop'
      rw [Function.update_of_ne hj] at hop
      cases (hmine op' hop').2.1.symm.trans hv'
      exact absurd hv (hothers j hj op hop)
    · rw [Function.update_of_ne hj] at hop
      rw [Function.update_of_ne hj'] at hop'
      exact h.unique j j' op hop op' hop' v hv hv'
  · intro v k hk
    by_cases heq : v = w
    · subst heq
      exact hlive k hk
    · rw [hfutures v heq]
      exact h.live v k (hlast v heq ▸ hk)
  · intro v k hk
    by_cases heq : v = w
    · subst heq
      rcases hnew with ⟨op, rfl, hop, -⟩ | ⟨-, hanswer⟩
      · exact .inr ⟨i, op, by simp, hop⟩
      · exact .inl (hanswer k hk)
    · rw [hfutures v heq]
      refine (h.answered v k (hlast v heq ▸ hk)).imp id ?_
      rintro ⟨j, op, hop, hv⟩
      have hj : j ≠ i := by
        rintro rfl
        exact heq (Option.some.inj (hv.symm.trans (hold op hop)))
      exact ⟨j, op, by rwa [Function.update_of_ne hj], hv⟩

/-- A new future. -/
theorem Polls.newFuture {t : TokenId} (h : Polls calls c) (hi : c.program i = [])
    (hnext : s'.nextFuture = c.shared.nextFuture + 1)
    (hfuture : (s'.futures c.shared.nextFuture).token = t)
    (hfutures : ∀ w, w ≠ c.shared.nextFuture → s'.futures w = c.shared.futures w) :
    Polls (calls ++ [.cancelled t]) ⟨s', Function.update c.program i []⟩ := by
  have hprogram : Function.update c.program i [] = c.program := Function.update_eq_self_iff.2 hi.symm
  have hlast (w) : lastPoll w (calls ++ [.cancelled t]) = lastPoll w calls := lastPoll_append _ _ _
  have hold (w) (hw : w < c.shared.nextFuture) : s'.futures w = c.shared.futures w :=
    hfutures w (Nat.ne_of_lt hw)
  have hnone (w k) (hk : lastPoll w calls = some k) : w < c.shared.nextFuture := by
    by_contra hge
    rw [h.fresh w (Nat.not_lt.1 hge)] at hk
    cases hk
  rw [hprogram]
  refine ⟨?_, ?_, ?_, ?_, h.unique, ?_, ?_⟩ <;> dsimp only
  · rw [awaited_append, List.length_append, h.awaited, hnext]
    rfl
  · intro w hw
    rw [awaited_append]
    rcases Nat.lt_or_ge w c.shared.nextFuture with hlt | hge
    · rw [List.getElem?_append_left (h.awaited ▸ hlt), hold w hlt]
      exact h.token w hlt
    · rw [hnext] at hw
      have heq : w = c.shared.nextFuture := Nat.le_antisymm (Nat.le_of_lt_succ hw) hge
      rw [heq, hfuture, ← h.awaited]
      exact List.getElem?_concat_length
  · intro w hw
    rw [hnext] at hw
    exact (hlast w).trans (h.fresh w (Nat.le_of_succ_le hw))
  · intro j op hop w hw
    obtain ⟨h₁, h₂, h₃, h₄⟩ := h.owner j op hop w hw
    rw [hnext, hold w h₂]
    exact ⟨h₁, h₂.trans (Nat.lt_succ_self _), h₃,
      h₄.congr hw (hlast w) (by rw [hold w h₂]; exact ⟨rfl, rfl⟩)⟩
  · intro w k hk
    rw [hlast] at hk
    rw [hold w (hnone w k hk)]
    exact h.live w k hk
  · intro w k hk
    rw [hlast] at hk
    rw [hold w (hnone w k hk)]
    exact h.answered w k hk

end Steps

/-! ## Each step -/

/-- An operation of no future. -/
theorem exec_neutral (s : Store) {op : Op} (hop : op.future = none) :
    (∀ op' ∈ (exec s op).2, op'.future = none) ∧ (exec s op).1.nextFuture = s.nextFuture ∧
      ∀ w, ∃ woken, (exec s op).1.futures w = { s.futures w with wokenBy := woken } := by
  have hfutures {s' : Store} (h : s'.futures = s.futures) (w : FutureId) :
      ∃ woken, s'.futures w = { s.futures w with wokenBy := woken } :=
    ⟨(s.futures w).wokenBy, by rw [h]⟩
  have hinherit (c : TokenId) (r : Option CancellationReason) :
      (∀ op' ∈ (resume s (.inherit c) r).2, op'.future = none) ∧
      (resume s (.inherit c) r).1.nextFuture = s.nextFuture ∧
      ∀ w, ∃ woken, (resume s (.inherit c) r).1.futures w =
        { s.futures w with wokenBy := woken } := by
    cases r <;> exact ⟨by simp [resume, Op.future], rfl, hfutures rfl⟩
  cases op with
  | cas t r | upgrade t =>
    simp only [exec]
    split <;> exact ⟨by simp [Op.future], rfl, hfutures rfl⟩
  | takeWaiters t =>
    refine ⟨fun op' hmem => ?_, rfl, hfutures rfl⟩
    obtain ⟨entry, -, rfl⟩ := List.mem_map.1 hmem
    rfl
  | wake v k =>
    simp only [exec]
    split
    next => exact ⟨by simp, rfl, hfutures rfl⟩
    next =>
      refine ⟨by simp, rfl, fun w => ?_⟩
      by_cases hw : w = v
      · subst hw
        exact ⟨_, by simp [setFuture]; rfl⟩
      · exact ⟨(s.futures w).wokenBy, by simp [setFuture, hw]⟩
  | spread t r =>
    refine ⟨fun op' hmem => ?_, rfl, hfutures rfl⟩
    obtain ⟨c, -, rfl⟩ := List.mem_map.1 hmem
    rfl
  | linking todo parents c =>
    cases todo with
    | cons q todo => exact ⟨by simp [exec, Op.future], rfl, hfutures rfl⟩
    | nil =>
      refine ⟨fun op' hmem => ?_, rfl, hfutures rfl⟩
      obtain ⟨p, -, rfl⟩ := List.mem_map.1 hmem
      rfl
  | load t asker =>
    cases asker with
    | inherit c =>
      cases hr : s.reason t with
      | none =>
        rw [exec_load_none hr]
        exact ⟨by simp [Op.future], rfl, hfutures rfl⟩
      | some r =>
        rw [exec_load_some hr]
        exact hinherit c _
    | firstCheck w k | secondCheck w => cases hop
  | clock t asker =>
    cases asker with
    | inherit c =>
      rw [exec_clock]
      exact hinherit c _
    | firstCheck w k | secondCheck w => cases hop
  | register w k | unregister w o => cases hop

/-- An operation of a future. -/
theorem exec_own {calls : List Call} {s : Store} {op : Op} {w : FutureId} (hop : op.future = some w)
    (hexpects : op.Expects calls s) (hbusy : (s.futures w).busy)
    (hlive : ∀ k, lastPoll w calls = some k → ¬ (s.futures w).dropped) :
    Goes calls s w (exec s op).1 (exec s op).2 := by
  have hgo (op' : Op) (hop' : op'.future = some w) (hexpects' : op'.Expects calls s) :
      Goes calls s w s [op'] :=
    ⟨rfl, fun _ _ => rfl, rfl, hlive, .inl ⟨op', rfl, hop', hexpects', hbusy⟩⟩
  have hfirst (k : Waker) (r : Option CancellationReason) (hk : lastPoll w calls = some k) :
      Goes calls s w (resume s (.firstCheck w k) r).1 (resume s (.firstCheck w k) r).2 := by
    cases r with
    | none => exact hgo _ rfl hk
    | some r => exact .update rfl rfl rfl hlive (.inr ⟨rfl, fun _ _ => .inl (by simp)⟩)
  have hsecond (r : Option CancellationReason)
      (h : lastPoll w calls = some (s.futures w).waker ∧ (s.futures w).registered) :
      Goes calls s w (resume s (.secondCheck w) r).1 (resume s (.secondCheck w) r).2 := by
    cases r with
    | some r => exact hgo _ rfl h
    | none =>
      refine .update rfl rfl rfl hlive (.inr ⟨rfl, fun k hk => .inr ⟨h.2, ?_⟩⟩)
      exact Option.some.inj (h.1.symm.trans hk)
  cases op with
  | load t asker =>
    cases asker with
    | inherit c => cases hop
    | firstCheck v k =>
      cases hop
      cases hr : s.reason t with
      | none =>
        rw [exec_load_none hr]
        exact hgo _ rfl hexpects
      | some r =>
        rw [exec_load_some hr]
        exact hfirst k _ hexpects
    | secondCheck v =>
      cases hop
      cases hr : s.reason t with
      | none =>
        rw [exec_load_none hr]
        exact hgo _ rfl hexpects
      | some r =>
        rw [exec_load_some hr]
        exact hsecond _ hexpects
  | clock t asker =>
    rw [exec_clock]
    cases asker with
    | inherit c => cases hop
    | firstCheck v k =>
      cases hop
      exact hfirst k _ hexpects
    | secondCheck v =>
      cases hop
      exact hsecond _ hexpects
  | register v k =>
    cases hop
    have hk : lastPoll w calls = some k := hexpects
    exact .update rfl rfl rfl hlive (.inl ⟨_, rfl, rfl, by simp [Op.Expects, exec, setFuture, hk],
      hbusy⟩)
  | unregister v o =>
    cases hop
    cases o with
    | some r => exact .update rfl rfl rfl (by simp) (.inr ⟨rfl, fun _ _ => .inl (by simp)⟩)
    | none =>
      have hnone : lastPoll w calls = none := hexpects
      exact .update rfl rfl rfl (by simp [hnone]) (.inr ⟨rfl, by simp [hnone]⟩)
  | _ => cases hop

theorem polls_run_step {calls : List Call} {c : Threads.Config Store Op} {i : Nat} {op : Op}
    {rest : List Op} (h : Polls calls c) (hprogram : c.program i = op :: rest) :
    Polls calls ⟨(exec c.shared op).1,
      Function.update c.program i ((exec c.shared op).2 ++ rest)⟩ := by
  have hmem : op ∈ c.program i := hprogram ▸ List.mem_cons_self
  cases hop : op.future with
  | none =>
    obtain ⟨hnew, hnext, hfutures⟩ := exec_neutral c.shared hop
    have hold (op') (hop' : op' ∈ c.program i) : op'.future = none := by
      by_contra hne
      obtain ⟨w, hw⟩ := Option.ne_none_iff_exists'.1 hne
      rw [(h.owner i op' hop' w hw).1] at hmem
      cases List.mem_singleton.1 hmem
      rw [hop] at hw
      cases hw
    refine h.neutral hold (fun op' hop' => ?_) (fun _ => rfl) rfl hnext hfutures
    rcases List.mem_append.1 hop' with hop' | hop'
    · exact hnew op' hop'
    · exact hold op' (hprogram ▸ List.mem_cons_of_mem _ hop')
  | some w =>
    obtain ⟨hsingle, hw, hbusy, hexpects⟩ := h.owner i op hmem w hop
    obtain rfl : rest = [] := (List.cons_eq_cons.1 (hprogram.symm.trans hsingle)).2
    rw [List.append_nil]
    refine h.own hw ?_ ?_ (fun _ _ => rfl) rfl (exec_own hop hexpects hbusy (h.live w))
    · intro op' hop'
      rw [hprogram] at hop'
      exact List.mem_singleton.1 hop' ▸ hop
    · intro j hj op' hop' hw'
      exact hj (h.unique j i op' hop' op hmem w hw' hop)

theorem polls_call_step {calls : List Call} {c : Threads.Config Store Op} {i : Nat} {call : Call}
    {s' : Store} {ops : List Op} (h : Polls calls c) (hi : c.program i = [])
    (hstart : start c.shared call = some (s', ops)) :
    Polls (calls ++ [call]) ⟨s', Function.update c.program i ops⟩ := by
  have hneutral (hlast : ∀ w, call.leaves w (lastPoll w calls) = lastPoll w calls)
      (hawaits : call.awaits = []) (hops : ∀ op ∈ ops, op.future = none)
      (hsame : s'.nextFuture = c.shared.nextFuture ∧ s'.futures = c.shared.futures) :
      Polls (calls ++ [call]) ⟨s', Function.update c.program i ops⟩ :=
    h.neutral (by simp [hi]) hops (fun w => (lastPoll_append w calls call).trans (hlast w))
      (by rw [awaited_append, hawaits, List.append_nil]) hsame.1
      fun w => ⟨(c.shared.futures w).wokenBy, by rw [hsame.2]⟩
  have hfree {w : FutureId} (hw : available c.shared w) (j : Nat) (_ : j ≠ i) (op : Op)
      (hop : op ∈ c.program j) : op.future ≠ some w :=
    fun heq => hw.2.1 (h.owner j op hop w heq).2.2.1
  cases call with
  | token deadline =>
    cases hstart
    exact hneutral (fun _ => rfl) rfl (by simp) ⟨rfl, rfl⟩
  | childToken t | childTokenWithDeadline t deadline | linked ts | clone t | release t | cancel t
  | cancelDueToDeadline t | fire entry | tick now =>
    obtain ⟨-, hs⟩ := Option.ite_none_right_eq_some.1 hstart
    cases hs
    exact hneutral (fun _ => rfl) rfl (by simp [Op.future]) ⟨rfl, rfl⟩
  | cancelled t =>
    obtain ⟨-, hs⟩ := Option.ite_none_right_eq_some.1 hstart
    cases hs
    exact h.newFuture hi rfl (by simp [setFuture]) fun w hw => by simp [setFuture, hw]
  | poll w k =>
    obtain ⟨hw, hs⟩ := Option.ite_none_right_eq_some.1 hstart
    cases hs
    have hlast : lastPoll w (calls ++ [.poll w k]) = some k := by
      simp [lastPoll_append, Call.leaves]
    refine h.own hw.1 (by simp [hi]) (hfree hw) (fun v hv => ?_)
      ((awaited_append _ _).trans (List.append_nil _))
      (.update rfl rfl rfl (fun _ _ => hw.2.2) (.inl ⟨_, rfl, rfl, hlast, rfl⟩))
    simp [lastPoll_append, Call.leaves, hv.symm]
  | drop w =>
    obtain ⟨hw, hs⟩ := Option.ite_none_right_eq_some.1 hstart
    have hlast : lastPoll w (calls ++ [.drop w]) = none := by
      simp [lastPoll_append, Call.leaves]
    have hother (v : FutureId) (hv : v ≠ w) :
        lastPoll v (calls ++ [.drop w]) = lastPoll v calls := by
      simp [lastPoll_append, Call.leaves, hv.symm]
    have hawaited : awaited (calls ++ [.drop w]) = awaited calls :=
      (awaited_append _ _).trans (List.append_nil _)
    split at hs
    next =>
      cases hs
      exact h.own hw.1 (by simp [hi]) (hfree hw) hother hawaited
        (.update rfl rfl rfl (by simp [hlast]) (.inl ⟨_, rfl, rfl, hlast, rfl⟩))
    next =>
      cases hs
      exact h.own hw.1 (by simp [hi]) (hfree hw) hother hawaited
        (.update rfl rfl rfl (by simp [hlast]) (.inr ⟨rfl, by simp [hlast]⟩))

theorem polls_step (calls : List Call) (c c' : Threads.Config Store Op)
    (event : Threads.Event Call) (h : Polls calls c) (hstep : tokens.step c event = some c') :
    Polls (calls ++ event.made) c' := by
  cases event with
  | call i call =>
    simp only [Threads.step] at hstep
    split at hstep
    next hidle =>
      obtain ⟨⟨s', ops⟩, hstart, rfl⟩ := Option.map_eq_some_iff.1 hstep
      exact polls_call_step h (List.isEmpty_iff.1 hidle) hstart
    next => cases hstep
  | run i =>
    simp only [Threads.step] at hstep
    split at hstep
    next => cases hstep
    next op rest hprogram =>
      cases hstep
      rw [Threads.Event.made, List.append_nil]
      exact polls_run_step h hprogram

end Plenora.Core.Cancellation
