import Plenora.Core.CancellationGraph

/-!
# The waiters of the tokens

What every operation keeps of the waiters: a registered waker is in the list of
its token, or was taken from it and is woken; an entry that comes too late for the
cancellation is withdrawn by the check that follows its registration.

    Waiting s P → P op → … → Waiting (exec s op).1 P'    (waiting_exec)
    tokens.Keeps Waiting                                  (waiting_keeps)
-/

namespace Plenora.Core.Cancellation

open Plenora.Lib

/-! ## The waiters -/

structure Waiting (s : Store) (P : Op → Prop) : Prop where
  fresh : ∀ t, s.nextToken ≤ t → s.waiters t = []
  token : ∀ w, w < s.nextFuture → (s.futures w).token < s.nextToken
  entry : ∀ t e, e ∈ s.waiters t → e.owner < s.nextFuture ∧ (s.futures e.owner).token = t
  asks : ∀ t w k, P (.load t (.firstCheck w k)) ∨ P (.clock t (.firstCheck w k)) →
    w < s.nextFuture
  register : ∀ w k, P (.register w k) → w < s.nextFuture
  /-- An entry left with a cancelled token is about to be taken, or withdrawn by its future. -/
  stale : ∀ t e, e ∈ s.waiters t → s.reason t ≠ none →
    P (.takeWaiters t) ∨ P (.load t (.secondCheck e.owner)) ∨ ∃ o, P (.unregister e.owner o)
  /-- A registered waker is in the list, or taken from it and about to be woken, or was woken. -/
  notified : ∀ w, (s.futures w).registered → ¬ (s.futures w).dropped →
    ⟨w, (s.futures w).waker⟩ ∈ s.waiters (s.futures w).token ∨
      P (.wake w (s.futures w).waker) ∨ (s.futures w).waker ∈ (s.futures w).wokenBy

/-- Nothing the waiters speak of changed, but for a check that goes on to withdraw its entry. -/
theorem Waiting.congr {s s' : Store} {P P' : Op → Prop} (h : Waiting s P)
    (hsame : s'.nextToken = s.nextToken ∧ s'.nextFuture = s.nextFuture ∧ s'.reason = s.reason ∧
      s'.waiters = s.waiters)
    (hfutures : ∀ w, (s'.futures w).token = (s.futures w).token ∧
      (s'.futures w).registered = (s.futures w).registered ∧
      ((s.futures w).dropped → (s'.futures w).dropped) ∧
      (s'.futures w).waker = (s.futures w).waker ∧ (s'.futures w).wokenBy = (s.futures w).wokenBy)
    (htake : ∀ t, P (.takeWaiters t) → P' (.takeWaiters t))
    (hwake : ∀ w k, P (.wake w k) → P' (.wake w k))
    (hunregister : ∀ w o, P (.unregister w o) → P' (.unregister w o))
    (hsecond : ∀ t w, s.reason t ≠ none → P (.load t (.secondCheck w)) →
      P' (.load t (.secondCheck w)) ∨ ∃ o, P' (.unregister w o))
    (hasks : ∀ t w k, P' (.load t (.firstCheck w k)) ∨ P' (.clock t (.firstCheck w k)) →
      w < s.nextFuture)
    (hregister : ∀ w k, P' (.register w k) → w < s.nextFuture) : Waiting s' P' := by
  obtain ⟨hnext, hnextFuture, hreason, hwaiters⟩ := hsame
  obtain ⟨hfresh, htoken, hentry, -, -, hstale, hnotified⟩ := h
  constructor <;> try simp only [hnext, hnextFuture, hreason, hwaiters]
  · exact hfresh
  · exact fun w hw => (hfutures w).1 ▸ htoken w hw
  · exact fun t e he => ⟨(hentry t e he).1, (hfutures _).1 ▸ (hentry t e he).2⟩
  · exact hasks
  · exact hregister
  · grind
  · intro w hreg hdrop
    obtain ⟨h₁, h₂, h₃, h₄, h₅⟩ := hfutures w
    rw [h₁, h₄, h₅]
    rcases hnotified w (h₂ ▸ hreg) (fun hd => hdrop (h₃ hd)) with hmem | hp | hw
    · exact .inl hmem
    · exact .inr (.inl (hwake _ _ hp))
    · exact .inr (.inr hw)

theorem Waiting.cas_success {s : Store} {P P' : Op → Prop} {t : TokenId} {r : CancellationReason}
    (h : Waiting s P)
    (hadv : Threads.Advances P P' (some (.cas t r)) [.takeWaiters t, .spread t r]) :
    Waiting { s with reason := Function.update s.reason t (some r) } P' := by
  have hkeep (op) (hne : op ≠ .cas t r) (hp : P op) : P' op :=
    (hadv.keeps op hp).resolve_left (by simpa using Ne.symm hne)
  have honly (op) (hne : op ≠ .takeWaiters t ∧ op ≠ .spread t r) (hp : P' op) : P op :=
    (hadv.only op hp).resolve_right (by simpa using hne)
  have htake : P' (.takeWaiters t) := hadv.adds _ (by simp)
  obtain ⟨hfresh, htoken, hentry, hasks, hregister, hstale, hnotified⟩ := h
  refine ⟨hfresh, htoken, hentry, ?_, ?_, ?_, ?_⟩
  · exact fun t w k hp =>
      hasks t w k (hp.imp (honly _ (by simp)) (honly _ (by simp)))
  · exact fun w k hp => hregister w k (honly _ (by simp) hp)
  · intro t' e he hr
    by_cases ht : t' = t
    · exact .inl (ht ▸ htake)
    · dsimp only at hr he
      rw [Function.update_of_ne ht] at hr
      rcases hstale t' e he hr with hp | hp | ⟨o, hp⟩
      · exact .inl (hkeep _ (by simp) hp)
      · exact .inr (.inl (hkeep _ (by simp) hp))
      · exact .inr (.inr ⟨o, hkeep _ (by simp) hp⟩)
  · intro w hreg hdrop
    rcases hnotified w hreg hdrop with hmem | hp | hw
    · exact .inl hmem
    · exact .inr (.inl (hkeep _ (by simp) hp))
    · exact .inr (.inr hw)

theorem Waiting.take {s : Store} {P P' : Op → Prop} {t : TokenId} (h : Waiting s P)
    (hadv : Threads.Advances P P' (some (.takeWaiters t)) (exec s (.takeWaiters t)).2) :
    Waiting (exec s (.takeWaiters t)).1 P' := by
  have hkeep (op) (hne : op ≠ .takeWaiters t) (hp : P op) : P' op :=
    (hadv.keeps op hp).resolve_left (by simpa using Ne.symm hne)
  have honly (op) (hne : ∀ w k, op ≠ .wake w k) (hp : P' op) : P op := by
    refine (hadv.only op hp).resolve_right fun hmem => ?_
    obtain ⟨e, -, rfl⟩ := List.mem_map.1 hmem
    exact hne _ _ rfl
  have hnew (e) (he : e ∈ s.waiters t) : P' (.wake e.owner e.waker) :=
    hadv.adds _ (List.mem_map.2 ⟨e, he, rfl⟩)
  obtain ⟨hfresh, htoken, hentry, hasks, hregister, hstale, hnotified⟩ := h
  have hwaiters (t') : (exec s (.takeWaiters t)).1.waiters t' = if t' = t then [] else s.waiters t' := by
    simp [exec, Function.update_apply]
  have hsub (t' e) (he : e ∈ (exec s (.takeWaiters t)).1.waiters t') : t' ≠ t ∧ e ∈ s.waiters t' := by
    rw [hwaiters] at he
    split at he
    next => cases he
    next ht => exact ⟨ht, he⟩
  refine ⟨?_, htoken, ?_, ?_, ?_, ?_, ?_⟩
  · intro t' ht'
    rw [hwaiters, hfresh t' ht']
    exact ite_self _
  · exact fun t' e he => hentry t' e (hsub t' e he).2
  · exact fun t w k hp => hasks t w k (hp.imp (honly _ (by simp)) (honly _ (by simp)))
  · exact fun w k hp => hregister w k (honly _ (by simp) hp)
  · intro t' e he hr
    obtain ⟨ht, he⟩ := hsub t' e he
    rcases hstale t' e he hr with hp | hp | ⟨o, hp⟩
    · exact .inl (hkeep _ (by simpa using ht) hp)
    · exact .inr (.inl (hkeep _ (by simp) hp))
    · exact .inr (.inr ⟨o, hkeep _ (by simp) hp⟩)
  · intro w hreg hdrop
    change (s.futures w).registered at hreg
    change ¬ (s.futures w).dropped at hdrop
    rcases hnotified w hreg hdrop with hmem | hp | hw
    · by_cases ht : (s.futures w).token = t
      · exact .inr (.inl (hnew _ (ht ▸ hmem)))
      · refine .inl ?_
        rw [hwaiters]
        exact (if_neg ht).symm ▸ hmem
    · exact .inr (.inl (hkeep _ (by simp) hp))
    · exact .inr (.inr hw)

theorem Waiting.woken_by {s : Store} {P P' : Op → Prop} {w : FutureId} {k : Waker} (h : Waiting s P)
    (hadv : Threads.Advances P P' (some (.wake w k)) (exec s (.wake w k)).2) :
    Waiting (exec s (.wake w k)).1 P' := by
  have hnil : (exec s (.wake w k)).2 = [] := by
    simp only [exec]
    split <;> rfl
  rw [hnil] at hadv
  have hkeep (op) (hne : op ≠ .wake w k) (hp : P op) : P' op :=
    (hadv.keeps op hp).resolve_left (by simpa using Ne.symm hne)
  have honly (op) (hp : P' op) : P op := (hadv.only op hp).resolve_right (by simp)
  obtain ⟨hfresh, htoken, hentry, hasks, hregister, hstale, hnotified⟩ := h
  have hother : (exec s (.wake w k)).1 = { s with futures := (exec s (.wake w k)).1.futures } := by
    simp only [exec]
    split <;> rfl
  have hfut (v) : (((exec s (.wake w k)).1.futures v).token = (s.futures v).token ∧
      ((exec s (.wake w k)).1.futures v).registered = (s.futures v).registered ∧
      ((exec s (.wake w k)).1.futures v).dropped = (s.futures v).dropped ∧
      ((exec s (.wake w k)).1.futures v).waker = (s.futures v).waker) ∧
      ((s.futures v).wokenBy ⊆ ((exec s (.wake w k)).1.futures v).wokenBy) ∧
      (v = w → ¬ (s.futures v).dropped → k ∈ ((exec s (.wake w k)).1.futures v).wokenBy) := by
    by_cases hv : v = w
    · subst hv
      by_cases hd : (s.futures v).dropped <;> simp [exec, hd, setFuture]
    · by_cases hd : (s.futures w).dropped <;> simp [exec, hd, setFuture, hv]
  rw [hother]
  refine ⟨hfresh, ?_, ?_, ?_, ?_, ?_, ?_⟩
  · exact fun v hv => (hfut v).1.1 ▸ htoken v hv
  · exact fun t e he => ⟨(hentry t e he).1, (hfut _).1.1 ▸ (hentry t e he).2⟩
  · exact fun t v k' hp => hasks t v k' (hp.imp (honly _) (honly _))
  · exact fun v k' hp => hregister v k' (honly _ hp)
  · intro t e he hr
    rcases hstale t e he hr with hp | hp | ⟨o, hp⟩
    · exact .inl (hkeep _ (by simp) hp)
    · exact .inr (.inl (hkeep _ (by simp) hp))
    · exact .inr (.inr ⟨o, hkeep _ (by simp) hp⟩)
  · intro v hreg hdrop
    obtain ⟨⟨h₁, h₂, h₃, h₄⟩, hsub, hwoken⟩ := hfut v
    dsimp only at hreg hdrop ⊢
    rw [h₂] at hreg
    rw [h₃] at hdrop
    rw [h₁, h₄]
    rcases hnotified v hreg hdrop with hmem | hp | hw
    · exact .inl hmem
    · by_cases hvk : v = w ∧ (s.futures v).waker = k
      · exact .inr (.inr (hvk.2 ▸ hwoken hvk.1 hdrop))
      · exact .inr (.inl (hkeep _ (by simpa using hvk) hp))
    · exact .inr (.inr (hsub hw))

theorem mem_upsertWaiter {w : FutureId} {k : Waker} {entries : List WaiterEntry} {e : WaiterEntry}
    (h : e ∈ upsertWaiter w k entries) : e = ⟨w, k⟩ ∨ e ∈ entries := by
  induction entries with
  | nil => exact .inl (List.mem_singleton.1 h)
  | cons e' entries ih =>
    unfold upsertWaiter at h
    split at h
    next =>
      exact (List.mem_cons.1 h).imp id (List.mem_cons_of_mem _)
    next =>
      rcases List.mem_cons.1 h with rfl | h
      · exact .inr List.mem_cons_self
      · exact (ih h).imp id (List.mem_cons_of_mem _)

theorem self_mem_upsertWaiter (w : FutureId) (k : Waker) (entries : List WaiterEntry) :
    ⟨w, k⟩ ∈ upsertWaiter w k entries := by
  induction entries with
  | nil => exact List.mem_singleton_self _
  | cons e entries ih =>
    unfold upsertWaiter
    split
    next => exact List.mem_cons_self
    next => exact List.mem_cons_of_mem _ ih

theorem other_mem_upsertWaiter {w : FutureId} (k : Waker) {entries : List WaiterEntry}
    {e : WaiterEntry} (he : e ∈ entries) (hne : e.owner ≠ w) : e ∈ upsertWaiter w k entries := by
  induction entries with
  | nil => cases he
  | cons e' entries ih =>
    unfold upsertWaiter
    split
    next h =>
      rcases List.mem_cons.1 he with rfl | he
      · exact absurd h hne
      · exact List.mem_cons_of_mem _ he
    next =>
      rcases List.mem_cons.1 he with rfl | he
      · exact List.mem_cons_self
      · exact List.mem_cons_of_mem _ (ih he)

theorem Waiting.registered {s : Store} {P P' : Op → Prop} {w : FutureId} {k : Waker}
    (h : Waiting s P) (hop : P (.register w k))
    (hadv : Threads.Advances P P' (some (.register w k)) (exec s (.register w k)).2) :
    Waiting (exec s (.register w k)).1 P' := by
  have hnew : P' (.load (s.futures w).token (.secondCheck w)) := hadv.adds _ (by simp [exec])
  have hkeep (op) (hne : op ≠ .register w k) (hp : P op) : P' op :=
    (hadv.keeps op hp).resolve_left (by simpa using Ne.symm hne)
  have honly (op) (hne : op ≠ .load (s.futures w).token (.secondCheck w)) (hp : P' op) : P op :=
    (hadv.only op hp).resolve_right (by simpa [exec] using hne)
  obtain ⟨hfresh, htoken, hentry, hasks, hregister, hstale, hnotified⟩ := h
  have hw := hregister w k hop
  have hfut (v) (hv : v ≠ w) : (exec s (.register w k)).1.futures v = s.futures v := by
    simp [exec, setFuture, hv]
  have hself : (exec s (.register w k)).1.futures w =
      { s.futures w with registered := true, waker := k, wokenBy := [] } := by
    simp [exec, setFuture]
  have htok (v) : ((exec s (.register w k)).1.futures v).token = (s.futures v).token := by
    by_cases hv : v = w
    · subst hv
      rw [hself]
    · rw [hfut v hv]
  have hwaiters (t) : (exec s (.register w k)).1.waiters t =
      if t = (s.futures w).token then
        upsertWaiter w k ((s.waiters t).filter fun e => !(s.futures e.owner).dropped)
      else s.waiters t := by
    by_cases ht : t = (s.futures w).token
    · subst ht
      simp [exec]
    · simp [exec, setFuture, ht]
  have hsub (t e) (he : e ∈ (exec s (.register w k)).1.waiters t) :
      (t = (s.futures w).token ∧ e.owner = w) ∨ e ∈ s.waiters t := by
    rw [hwaiters] at he
    split at he
    next ht =>
      rcases mem_upsertWaiter he with rfl | he
      · exact .inl ⟨ht, rfl⟩
      · exact .inr (List.mem_filter.1 he).1
    next => exact .inr he
  refine ⟨?_, ?_, ?_, ?_, ?_, ?_, ?_⟩
  · intro t ht
    have hne : t ≠ (s.futures w).token := by
      rintro rfl
      exact absurd (htoken w hw) (Nat.not_lt.2 ht)
    rw [hwaiters, if_neg hne]
    exact hfresh t ht
  · intro v hv
    rw [htok]
    exact htoken v hv
  · intro t e he
    rw [htok]
    rcases hsub t e he with ⟨rfl, rfl⟩ | he
    · exact ⟨hw, rfl⟩
    · exact hentry t e he
  · exact fun t v k' hp => hasks t v k' (hp.imp (honly _ (by simp)) (honly _ (by simp)))
  · exact fun v k' hp => hregister v k' (honly _ (by simp) hp)
  · intro t e he hr
    rcases hsub t e he with ⟨rfl, rfl⟩ | he
    · exact .inr (.inl hnew)
    · rcases hstale t e he hr with hp | hp | ⟨o, hp⟩
      · exact .inl (hkeep _ (by simp) hp)
      · exact .inr (.inl (hkeep _ (by simp) hp))
      · exact .inr (.inr ⟨o, hkeep _ (by simp) hp⟩)
  · intro v hreg hdrop
    by_cases hv : v = w
    · subst hv
      rw [hself]
      refine .inl ?_
      rw [hwaiters]
      dsimp only
      rw [if_pos rfl]
      exact self_mem_upsertWaiter _ _ _
    · rw [hfut v hv] at hreg hdrop ⊢
      rcases hnotified v hreg hdrop with hmem | hp | hwoken
      · refine .inl ?_
        rw [hwaiters]
        split
        next =>
          refine other_mem_upsertWaiter k (List.mem_filter.2 ⟨hmem, ?_⟩) hv
          simpa using hdrop
        next => exact hmem
      · exact .inr (.inl (hkeep _ (by simp) hp))
      · exact .inr (.inr hwoken)

theorem Waiting.unregistered {s : Store} {P P' : Op → Prop} {w : FutureId}
    {o : Option CancellationReason} (h : Waiting s P)
    (hadv : Threads.Advances P P' (some (.unregister w o)) []) :
    Waiting (exec s (.unregister w o)).1 P' := by
  have hkeep (op) (hne : op ≠ .unregister w o) (hp : P op) : P' op :=
    (hadv.keeps op hp).resolve_left (by simpa using Ne.symm hne)
  have honly (op) (hp : P' op) : P op := (hadv.only op hp).resolve_right (by simp)
  obtain ⟨hfresh, htoken, hentry, hasks, hregister, hstale, hnotified⟩ := h
  have hfut (v) (hv : v ≠ w) : (exec s (.unregister w o)).1.futures v = s.futures v := by
    simp [exec, setFuture, hv]
  have hself : (exec s (.unregister w o)).1.futures w =
      { s.futures w with registered := false, busy := false, dropped := o.isNone, output := o } := by
    simp [exec, setFuture]
  have htok (v) : ((exec s (.unregister w o)).1.futures v).token = (s.futures v).token := by
    by_cases hv : v = w
    · subst hv
      rw [hself]
    · rw [hfut v hv]
  have hwaiters (t) : (exec s (.unregister w o)).1.waiters t =
      if t = (s.futures w).token then
        (s.waiters t).filter fun e => !(s.futures e.owner).dropped && e.owner ≠ w
      else s.waiters t := by
    by_cases ht : t = (s.futures w).token
    · subst ht
      simp [exec]
    · simp [exec, setFuture, ht]
  have hsub (t e) (he : e ∈ (exec s (.unregister w o)).1.waiters t) :
      e ∈ s.waiters t ∧ e.owner ≠ w := by
    rw [hwaiters] at he
    split at he
    next ht =>
      obtain ⟨he, hlive⟩ := List.mem_filter.1 he
      exact ⟨he, by simpa using (Bool.and_eq_true_iff.1 hlive).2⟩
    next ht =>
      refine ⟨he, fun howner => ht ?_⟩
      rw [← (hentry t e he).2, howner]
  refine ⟨?_, ?_, ?_, ?_, ?_, ?_, ?_⟩
  · intro t ht
    rw [hwaiters, hfresh t ht]
    exact ite_self _
  · intro v hv
    rw [htok]
    exact htoken v hv
  · intro t e he
    rw [htok]
    exact hentry t e (hsub t e he).1
  · exact fun t v k' hp => hasks t v k' (hp.imp (honly _) (honly _))
  · exact fun v k' hp => hregister v k' (honly _ hp)
  · intro t e he hr
    obtain ⟨he, hne⟩ := hsub t e he
    rcases hstale t e he hr with hp | hp | ⟨o', hp⟩
    · exact .inl (hkeep _ (by simp) hp)
    · exact .inr (.inl (hkeep _ (by simp) hp))
    · exact .inr (.inr ⟨o', hkeep _ (by simp [hne]) hp⟩)
  · intro v hreg hdrop
    by_cases hv : v = w
    · subst hv
      rw [hself] at hreg
      cases hreg
    · rw [hfut v hv] at hreg hdrop ⊢
      rcases hnotified v hreg hdrop with hmem | hp | hwoken
      · refine .inl ?_
        rw [hwaiters]
        split
        next => exact List.mem_filter.2 ⟨hmem, by simpa [hv] using hdrop⟩
        next => exact hmem
      · exact .inr (.inl (hkeep _ (by simp) hp))
      · exact .inr (.inr hwoken)

theorem Waiting.alloc {s : Store} {P P' : Op → Prop} {parents : List TokenId}
    {deadline : Option Instant} (h : Waiting s P)
    (honly : ∀ op, P' op → P op ∨ op = .linking parents parents s.nextToken)
    (hkeeps : ∀ op, P op → P' op) : Waiting (newInner s deadline) P' := by
  obtain ⟨hfresh, htoken, hentry, hasks, hregister, hstale, hnotified⟩ := h
  have hwaiters : (newInner s deadline).waiters = s.waiters :=
    Function.update_eq_self_iff.2 (hfresh _ (Nat.le_refl _)).symm
  have hreason (t) (hr : (newInner s deadline).reason t ≠ none) : s.reason t ≠ none := by
    simp only [newInner, Function.update_apply] at hr
    split at hr
    next => exact absurd rfl hr
    next => exact hr
  refine ⟨?_, ?_, ?_, ?_, ?_, ?_, ?_⟩
  · intro t ht
    rw [hwaiters]
    exact hfresh t (Nat.le_of_succ_le ht)
  · exact fun w hw => (htoken w hw).trans (Nat.lt_succ_self _)
  · rw [hwaiters]
    exact hentry
  · exact fun t w k hp => hasks t w k
      (hp.imp (fun hp => by simpa using honly _ hp) (fun hp => by simpa using honly _ hp))
  · exact fun w k hp => hregister w k (by simpa using honly _ hp)
  · intro t e he hr
    rw [hwaiters] at he
    rcases hstale t e he (hreason t hr) with hp | hp | ⟨o, hp⟩
    · exact .inl (hkeeps _ hp)
    · exact .inr (.inl (hkeeps _ hp))
    · exact .inr (.inr ⟨o, hkeeps _ hp⟩)
  · intro w hreg hdrop
    rw [hwaiters]
    rcases hnotified w hreg hdrop with hmem | hp | hwoken
    · exact .inl hmem
    · exact .inr (.inl (hkeeps _ hp))
    · exact .inr (.inr hwoken)

theorem Waiting.newFuture {s : Store} {P P' : Op → Prop} {t : TokenId} (h : Waiting s P)
    (ht : t < s.nextToken) (hadv : Threads.Advances P P' none []) :
    Waiting { setFuture s s.nextFuture ⟨t, false, false, false, none, 0, []⟩ with
      nextFuture := s.nextFuture + 1 } P' := by
  have hP (op) : P' op ↔ P op := hadv.pending_iff (by simp) (by simp)
  obtain ⟨hfresh, htoken, hentry, hasks, hregister, hstale, hnotified⟩ := h
  constructor <;> simp only [setFuture, hP]
  · exact hfresh
  · intro w hw
    by_cases hn : w = s.nextFuture
    · subst hn
      simpa using ht
    · rw [Function.update_of_ne hn]
      exact htoken w (Nat.lt_of_le_of_ne (Nat.le_of_lt_succ hw) hn)
  · intro t' e he
    obtain ⟨hlt, htok⟩ := hentry t' e he
    rw [Function.update_of_ne (Nat.ne_of_lt hlt)]
    exact ⟨hlt.trans (Nat.lt_succ_self _), htok⟩
  · exact fun t' w k hp => (hasks t' w k hp).trans (Nat.lt_succ_self _)
  · exact fun w k hp => (hregister w k hp).trans (Nat.lt_succ_self _)
  · exact hstale
  · intro w hreg hdrop
    by_cases hn : w = s.nextFuture
    · subst hn
      simp at hreg
    · rw [Function.update_of_ne hn] at hreg hdrop ⊢
      exact hnotified w hreg hdrop

/-- The operations the waiters speak of, for how long a step must keep them. -/
def Op.isWaiting : Op → Prop
  | .takeWaiters _ | .wake _ _ | .unregister _ _ | .register _ _ | .load _ (.firstCheck _ _)
  | .clock _ (.firstCheck _ _) | .load _ (.secondCheck _) => True
  | _ => False

/-- Steps on the graph leave the waiters alone. -/
theorem Waiting.neutral {s s' : Store} {P P' : Op → Prop} {done : Option Op} {new : List Op}
    (h : Waiting s P) (hadv : Threads.Advances P P' done new)
    (hdone : ∀ op, done = some op → ¬ op.isWaiting) (hnew : ∀ op ∈ new, ¬ op.isWaiting)
    (hsame : s'.nextToken = s.nextToken ∧ s'.nextFuture = s.nextFuture ∧ s'.reason = s.reason ∧
      s'.waiters = s.waiters)
    (hfutures : ∀ w, (s'.futures w).token = (s.futures w).token ∧
      (s'.futures w).registered = (s.futures w).registered ∧
      ((s.futures w).dropped → (s'.futures w).dropped) ∧
      (s'.futures w).waker = (s.futures w).waker ∧
      (s'.futures w).wokenBy = (s.futures w).wokenBy) : Waiting s' P' := by
  have hkeeps (op : Op) (hop : op.isWaiting) (hp : P op) : P' op :=
    (hadv.keeps op hp).resolve_left fun hd => hdone op hd hop
  have honly (op : Op) (hop : op.isWaiting) (hp : P' op) : P op :=
    (hadv.only op hp).resolve_right fun hmem => hnew op hmem hop
  refine h.congr hsame hfutures ?_ ?_ ?_ ?_ ?_ ?_
  · exact fun t => hkeeps _ trivial
  · exact fun w k => hkeeps _ trivial
  · exact fun w o => hkeeps _ trivial
  · exact fun t w _ hp => .inl (hkeeps _ trivial hp)
  · exact fun t w k hp => h.asks t w k (hp.imp (honly _ trivial) (honly _ trivial))
  · exact fun w k hp => h.register w k (honly _ trivial hp)

/-- A first check of a future goes on, or ends with the reason. -/
theorem Waiting.first_check {s : Store} {P P' : Op → Prop} {t : TokenId} {w : FutureId} {k : Waker}
    {done : Op} (h : Waiting s P) (hop : P done)
    (hdone : done = .load t (.firstCheck w k) ∨ done = .clock t (.firstCheck w k))
    (r : Option CancellationReason)
    (hadv : Threads.Advances P P' (some done) (resume s (.firstCheck w k) r).2) :
    Waiting (resume s (.firstCheck w k) r).1 P' := by
  have hw : w < s.nextFuture := h.asks t w k (by rcases hdone with rfl | rfl <;> simp [hop])
  have hkeeps (op : Op) (hne : op ≠ .load t (.firstCheck w k) ∧ op ≠ .clock t (.firstCheck w k))
      (hp : P op) : P' op := by
    refine (hadv.keeps op hp).resolve_left fun hd => ?_
    cases hd
    exact hdone.elim hne.1 hne.2
  have honly (op : Op) (hp : P' op) : P op ∨ op = .register w k := by
    refine (hadv.only op hp).imp id fun hmem => ?_
    cases r <;> simp_all [Cancellation.resume]
  refine h.congr ?_ ?_ ?_ ?_ ?_ ?_ ?_ ?_
  · cases r <;> exact ⟨rfl, rfl, rfl, rfl⟩
  · intro v
    by_cases hv : v = w <;> cases r <;> simp [Cancellation.resume, setFuture, hv]
  · exact fun t => hkeeps _ (by simp)
  · exact fun v k' => hkeeps _ (by simp)
  · exact fun v o => hkeeps _ (by simp)
  · exact fun t v _ hp => .inl (hkeeps _ (by simp) hp)
  · exact fun t' v k' hp => h.asks t' v k'
      (hp.imp (fun hp => by simpa using honly _ hp) (fun hp => by simpa using honly _ hp))
  · intro v k' hp
    rcases honly _ hp with hp | heq
    · exact h.register v k' hp
    · cases heq
      exact hw

/-- A second check of a future ends, or goes on to withdraw the entry. -/
theorem Waiting.second_check {s : Store} {P P' : Op → Prop} {t : TokenId} {w : FutureId}
    {done : Op} {r : Option CancellationReason} (h : Waiting s P)
    (hdone : (done = .load t (.secondCheck w) ∧ r ≠ none) ∨ done = .clock t (.secondCheck w))
    (hadv : Threads.Advances P P' (some done) (resume s (.secondCheck w) r).2) :
    Waiting (resume s (.secondCheck w) r).1 P' := by
  have hkeeps (op : Op) (hne : op ≠ .load t (.secondCheck w) ∧ op ≠ .clock t (.secondCheck w))
      (hp : P op) : P' op := by
    refine (hadv.keeps op hp).resolve_left fun hd => ?_
    cases hd
    exact hdone.elim (fun hd => hne.1 hd.1) hne.2
  have honly (op : Op) (hp : P' op) : P op ∨ ∃ o, op = .unregister w o := by
    refine (hadv.only op hp).imp id fun hmem => ?_
    cases r <;> simp_all [Cancellation.resume]
  refine h.congr ?_ ?_ ?_ ?_ ?_ ?_ ?_ ?_
  · cases r <;> exact ⟨rfl, rfl, rfl, rfl⟩
  · intro v
    by_cases hv : v = w <;> cases r <;> simp [Cancellation.resume, setFuture, hv]
  · exact fun t => hkeeps _ (by simp)
  · exact fun v k' => hkeeps _ (by simp)
  · exact fun v o => hkeeps _ (by simp)
  · intro t' v hr hp
    rcases hadv.keeps _ hp with hd | hp
    · cases hd
      rcases hdone with ⟨hd, hr'⟩ | hd
      · cases hd
        cases r with
        | none => exact absurd rfl hr'
        | some r => exact .inr ⟨some r, hadv.adds _ (by simp [Cancellation.resume])⟩
      · cases hd
    · exact .inl hp
  · exact fun t' v k' hp => h.asks t' v k'
      (hp.imp (fun hp => by simpa using honly _ hp) (fun hp => by simpa using honly _ hp))
  · exact fun v k' hp => h.register v k' (by simpa using honly _ hp)

/-- The first read found nothing: the clock is next. -/
theorem Waiting.load_none {s : Store} {P P' : Op → Prop} {t : TokenId} {asker : Asker}
    (h : Waiting s P) (hop : P (.load t asker)) (hr : s.reason t = none)
    (hadv : Threads.Advances P P' (some (.load t asker)) [.clock t asker]) : Waiting s P' := by
  have hkeeps (op : Op) (hne : op ≠ .load t asker) (hp : P op) : P' op :=
    (hadv.keeps op hp).resolve_left (by simpa using Ne.symm hne)
  refine h.congr ⟨rfl, rfl, rfl, rfl⟩ (by simp) ?_ ?_ ?_ ?_ ?_ ?_
  · exact fun t => hkeeps _ (by simp)
  · exact fun v k' => hkeeps _ (by simp)
  · exact fun v o => hkeeps _ (by simp)
  · intro t' v hr' hp
    refine .inl (hkeeps _ ?_ hp)
    rintro ⟨⟩
    exact hr' hr
  · intro t' v k' hp
    rcases hp with hp | hp
    · exact h.asks t' v k' (.inl (by simpa using hadv.only _ hp))
    · rcases hadv.only _ hp with hp | hmem
      · exact h.asks t' v k' (.inr hp)
      · cases List.mem_singleton.1 hmem
        exact h.asks t v k' (.inl hop)
  · exact fun v k' hp => h.register v k' (by simpa using hadv.only _ hp)

theorem waiting_exec (s : Store) (P P' : Op → Prop) (op : Op) (h : Waiting s P) (hop : P op)
    (hadv : Threads.Advances P P' (some op) (exec s op).2) : Waiting (exec s op).1 P' := by
  cases op with
  | cas t r =>
    rw [exec_cas] at hadv ⊢
    by_cases hr : s.reason t = none
    · rw [if_pos hr] at hadv ⊢
      exact h.cas_success hadv
    · rw [if_neg hr] at hadv ⊢
      exact h.neutral hadv (by rintro op ⟨⟩; exact id) (by simp) ⟨rfl, rfl, rfl, rfl⟩
        (by simp [leave])
  | takeWaiters t => exact h.take hadv
  | wake w k => exact h.woken_by hadv
  | spread t r =>
    refine h.neutral hadv (by rintro op ⟨⟩; exact id) (fun op hmem => ?_) ⟨rfl, rfl, rfl, rfl⟩
      (by simp [exec, leave, retain])
    obtain ⟨c, -, rfl⟩ := List.mem_map.1 hmem
    exact id
  | upgrade t =>
    rw [exec_upgrade] at hadv ⊢
    split at hadv
    all_goals
      exact h.neutral hadv (by rintro op ⟨⟩; exact id) (by simp [Op.isWaiting])
        (by split <;> exact ⟨rfl, rfl, rfl, rfl⟩) (by split <;> simp [retain])
  | linking todo parents c =>
    cases todo with
    | nil =>
      exact h.neutral hadv (by rintro op ⟨⟩; exact id) (by simp [exec, Op.isWaiting])
        ⟨rfl, rfl, rfl, rfl⟩ (by simp [exec])
    | cons q todo =>
      exact h.neutral hadv (by rintro op ⟨⟩; exact id) (by simp [exec, Op.isWaiting])
        ⟨rfl, rfl, rfl, rfl⟩ (by simp [exec])
  | load t asker =>
    cases hr : s.reason t with
    | none =>
      rw [exec_load_none hr] at hadv ⊢
      exact h.load_none hop hr hadv
    | some r =>
      rw [exec_load_some hr] at hadv ⊢
      cases asker with
      | inherit c =>
        exact h.neutral hadv (by rintro op ⟨⟩; exact id) (by simp [Cancellation.resume, Op.isWaiting])
          ⟨rfl, rfl, rfl, rfl⟩ (by simp [Cancellation.resume, retain])
      | firstCheck w k => exact h.first_check hop (.inl rfl) _ hadv
      | secondCheck w => exact h.second_check (.inl ⟨rfl, Option.some_ne_none r⟩) hadv
  | clock t asker =>
    rw [exec_clock] at hadv ⊢
    cases asker with
    | inherit c =>
      split at hadv
      all_goals
        exact h.neutral hadv (by rintro op ⟨⟩; exact id)
          (by simp [Cancellation.resume, Op.isWaiting])
          (by split <;> exact ⟨rfl, rfl, rfl, rfl⟩)
          (by split <;> simp [Cancellation.resume, retain])
    | firstCheck w k => exact h.first_check hop (.inr rfl) _ hadv
    | secondCheck w => exact h.second_check (.inr rfl) hadv
  | register w k => exact h.registered hop hadv
  | unregister w o => exact h.unregistered hadv

theorem waiting_start (s : Store) (P P' : Op → Prop) (call : Call) (s' : Store) (ops : List Op)
    (h : Waiting s P) (hstart : start s call = some (s', ops))
    (hadv : Threads.Advances P P' none ops) : Waiting s' P' := by
  have hkeeps (op) (hp : P op) : P' op := (hadv.keeps op hp).resolve_left nofun
  cases call with
  | token deadline =>
    cases hstart
    exact @Waiting.alloc _ _ _ [] _ h (fun op hp => .inl (by simpa using hadv.only op hp)) hkeeps
  | childToken parent | childTokenWithDeadline parent deadline | linked parents =>
    simp only [start, Option.ite_none_right_eq_some, Option.some.injEq, Prod.mk.injEq] at hstart
    obtain ⟨-, rfl, rfl⟩ := hstart
    exact h.alloc (fun op hp => by simpa using hadv.only op hp) hkeeps
  | clone t | release t | cancel t | cancelDueToDeadline t | fire entry | tick now =>
    simp only [start, Option.ite_none_right_eq_some, Option.some.injEq, Prod.mk.injEq] at hstart
    obtain ⟨-, rfl, rfl⟩ := hstart
    exact h.neutral hadv nofun (by simp [Op.isWaiting]) ⟨rfl, rfl, rfl, rfl⟩ (by simp [retain])
  | cancelled t =>
    simp only [start, Option.ite_none_right_eq_some, Option.some.injEq, Prod.mk.injEq] at hstart
    obtain ⟨ht, rfl, rfl⟩ := hstart
    exact h.newFuture ht.1 hadv
  | poll w k =>
    simp only [start, Option.ite_none_right_eq_some, Option.some.injEq, Prod.mk.injEq] at hstart
    obtain ⟨hw, rfl, rfl⟩ := hstart
    refine h.congr ⟨rfl, rfl, rfl, rfl⟩ ?_ (fun t => hkeeps _) (fun v k => hkeeps _)
      (fun v o => hkeeps _) (fun t v _ hp => .inl (hkeeps _ hp)) ?_ ?_
    · intro v
      by_cases hv : v = w <;> simp [setFuture, hv]
    · rintro t v k' (hp | hp)
      · rcases hadv.only _ hp with hp | hmem
        · exact h.asks t v k' (.inl hp)
        · cases List.mem_singleton.1 hmem
          exact hw.1
      · exact h.asks t v k' (.inr (by simpa using hadv.only _ hp))
    · exact fun v k' hp => h.register v k' (by simpa using hadv.only _ hp)
  | drop w =>
    simp only [start, Option.ite_none_right_eq_some] at hstart
    obtain ⟨-, hstart⟩ := hstart
    have hfutures (v : FutureId) (value : Cancelled)
        (hvalue : value.token = (s.futures w).token ∧
          value.registered = (s.futures w).registered ∧
          ((s.futures w).dropped → value.dropped) ∧ value.waker = (s.futures w).waker ∧
          value.wokenBy = (s.futures w).wokenBy) :
        let s' := setFuture s w value
        (s'.futures v).token = (s.futures v).token ∧
          (s'.futures v).registered = (s.futures v).registered ∧
          ((s.futures v).dropped → (s'.futures v).dropped) ∧
          (s'.futures v).waker = (s.futures v).waker ∧
          (s'.futures v).wokenBy = (s.futures v).wokenBy := by
      by_cases hv : v = w
      · subst hv
        simpa [setFuture] using hvalue
      · simp [setFuture, hv]
    have honly (op) (hop : ∀ o, op ≠ .unregister w o) (hp : P' op) : P op := by
      refine (hadv.only op hp).resolve_right fun hmem => ?_
      split at hstart <;> cases hstart
      · exact hop none (List.mem_singleton.1 hmem)
      · cases hmem
    have hwaiting (value : Cancelled) (hs : s' = setFuture s w value)
        (hvalue : value.token = (s.futures w).token ∧
          value.registered = (s.futures w).registered ∧
          ((s.futures w).dropped → value.dropped) ∧ value.waker = (s.futures w).waker ∧
          value.wokenBy = (s.futures w).wokenBy) : Waiting s' P' := by
      subst hs
      refine h.congr ⟨rfl, rfl, rfl, rfl⟩ (fun v => hfutures v value hvalue) (fun t => hkeeps _)
        (fun v k => hkeeps _) (fun v o => hkeeps _) (fun t v _ hp => .inl (hkeeps _ hp)) ?_ ?_
      · exact fun t v k hp => h.asks t v k (hp.imp (honly _ (by simp)) (honly _ (by simp)))
      · exact fun v k hp => h.register v k (honly _ (by simp) hp)
    split at hstart
    next =>
      cases hstart
      exact hwaiting _ rfl ⟨rfl, rfl, id, rfl, rfl⟩
    next =>
      cases hstart
      exact hwaiting _ rfl ⟨rfl, rfl, fun _ => rfl, rfl, rfl⟩

theorem waiting_keeps : tokens.Keeps fun _ s P => Waiting s P where
  exec _ := waiting_exec
  start _ := waiting_start

end Plenora.Core.Cancellation
