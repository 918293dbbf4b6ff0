import Plenora.Core.Cancellation

/-!
# The graph of the tokens

What every operation keeps of the graph: each token is younger than its parents,
with a nearer deadline; a child still held is cancelled when its parent is, or some
thread still has it to do; a token someone asked to cancel is cancelled, or about
to be; a token cancelled through its parents has a parent that was cancelled by
request.

    tokens.Keeps fun calls s _ => Built calls s           (built_keeps)
    Graph calls s P → P op → … → Graph calls (exec s op).1 P'   (graph_exec)
    tokens.Keeps Graph                                    (graph_keeps)
-/

namespace Plenora.Core.Cancellation

open Plenora.Lib

/-! ## What the calls made -/

theorem made_append (calls : List Call) (call : Call) :
    made (calls ++ [call]) = made calls ++ call.makes := by
  simp [made]

theorem Derived.lt {calls : List Call} {p c : TokenId} (h : Derived calls p c) :
    c < (made calls).length := by
  obtain ⟨m, hm, -⟩ := h
  exact (List.getElem?_eq_some_iff.1 hm).1

theorem derived_append {calls : List Call} {call : Call} {m : List TokenId × Option Instant}
    (h : call.makes = [m]) {p c : TokenId} :
    Derived (calls ++ [call]) p c ↔ Derived calls p c ∨ c = (made calls).length ∧ p ∈ m.1 := by
  simp only [Derived, made_append, h]
  rcases Nat.lt_trichotomy c (made calls).length with hc | rfl | hc
  · simp [List.getElem?_append_left hc, Nat.ne_of_lt hc]
  · simp
  · simp [Nat.ne_of_gt hc, List.getElem?_eq_none (Nat.le_of_lt hc), Nat.not_le.2 hc]

theorem asked_append {calls : List Call} {call : Call} {t : TokenId} :
    Asked (calls ++ [call]) t ↔
      Asked calls t ∨ call = .cancel t ∨ call = .cancelDueToDeadline t := by
  simp only [Asked, List.mem_append, List.mem_singleton, eq_comm (b := call)]
  tauto

/-- The first deadline comes, and not after the second, if there is a second. -/
def NotLater : Option Instant → Option Instant → Prop
  | _, none => True
  | some child, some parent => child ≤ parent
  | none, some _ => False

theorem nearer_notLater (parent child : Option Instant) :
    NotLater (nearer parent child) parent ∧ NotLater (nearer parent child) child := by
  cases parent with
  | none => cases child <;> exact ⟨trivial, by simp [nearer, NotLater]⟩
  | some p =>
    cases child with
    | none => exact ⟨Nat.le_refl p, trivial⟩
    | some c => exact ⟨Nat.min_le_left p c, Nat.min_le_right p c⟩

theorem min_notLater {s : Store} {parents : List TokenId} {p : TokenId} (hp : p ∈ parents) :
    NotLater (parents.filterMap s.deadline).min? (s.deadline p) := by
  cases hd : s.deadline p with
  | none => trivial
  | some d =>
    have hmem : d ∈ parents.filterMap s.deadline := List.mem_filterMap.2 ⟨p, hp, hd⟩
    cases hmin : (parents.filterMap s.deadline).min? with
    | none =>
      rw [List.min?_eq_none_iff.1 hmin] at hmem
      cases hmem
    | some m => exact (List.min?_eq_some_iff.1 hmin).2 d hmem

/-- The tokens the calls made, each younger than its parents and with a deadline no later than
theirs and than the one asked for. -/
structure Built (calls : List Call) (s : Store) : Prop where
  made : (made calls).length = s.nextToken
  edge : ∀ p c, Derived calls p c → p < c ∧ NotLater (s.deadline c) (s.deadline p)
  own : ∀ c m, (Cancellation.made calls)[c]? = some m → NotLater (s.deadline c) m.2
  /-- A token none of whose handles was released is held. -/
  kept : ∀ t < s.nextToken, .release t ∉ calls → held s t

theorem Built.congr {calls calls' : List Call} {s s' : Store} (h : Built calls s)
    (hmade : Cancellation.made calls' = Cancellation.made calls)
    (hsame : s'.nextToken = s.nextToken ∧ s'.deadline = s.deadline)
    (hheld : ∀ t, .release t ∉ calls' → .release t ∉ calls ∧ (held s t → held s' t)) :
    Built calls' s' := by
  obtain ⟨hnext, hdeadline⟩ := hsame
  constructor <;> simp only [Derived, hmade, hnext, hdeadline]
  · exact h.made
  · exact h.edge
  · exact h.own
  · exact fun t ht hcall => (hheld t hcall).2 (h.kept t ht (hheld t hcall).1)

/-- A new token joins. -/
theorem Built.alloc {calls : List Call} {s : Store} {call : Call} {deadline : Option Instant}
    {m : List TokenId × Option Instant} (h : Built calls s) (hmakes : call.makes = [m])
    (hcall : ∀ t, call ≠ .release t)
    (hparents : ∀ p ∈ m.1, p < s.nextToken ∧ NotLater deadline (s.deadline p))
    (hown : NotLater deadline m.2) : Built (calls ++ [call]) (newInner s deadline) := by
  have hnew : (newInner s deadline).deadline s.nextToken = deadline := by simp [newInner]
  have hold (t) (ht : t < s.nextToken) : (newInner s deadline).deadline t = s.deadline t :=
    Function.update_of_ne (Nat.ne_of_lt ht) _ _
  constructor
  · rw [made_append, hmakes, List.length_append, h.made]
    rfl
  · intro p c hpc
    rcases (derived_append hmakes).1 hpc with hpc | ⟨rfl, hp⟩
    · obtain ⟨hlt, hdeadline⟩ := h.edge p c hpc
      have hc := h.made ▸ hpc.lt
      rw [hold c hc, hold p (hlt.trans hc)]
      exact ⟨hlt, hdeadline⟩
    · obtain ⟨hlt, hdeadline⟩ := hparents p hp
      rw [h.made, hnew, hold p hlt]
      exact ⟨hlt, hdeadline⟩
  · intro c m' hm
    rw [made_append, hmakes] at hm
    rcases Nat.lt_or_ge c (Cancellation.made calls).length with hc | hc
    · rw [List.getElem?_append_left hc] at hm
      rw [hold c (h.made ▸ hc)]
      exact h.own c m' hm
    · rw [List.getElem?_append_right hc, List.getElem?_singleton] at hm
      split at hm
      next hzero =>
        cases hm
        have heq : c = s.nextToken :=
          (Nat.le_antisymm (Nat.sub_eq_zero_iff_le.1 hzero) hc).trans h.made
        rw [heq, hnew]
        exact hown
      next => cases hm
  · intro t ht hrelease
    by_cases heq : t = s.nextToken
    · subst heq
      exact ⟨Nat.lt_succ_self _, by simp [newInner]⟩
    · have hlt : t < s.nextToken := Nat.lt_of_le_of_ne (Nat.le_of_lt_succ ht) heq
      have hheld := h.kept t hlt (by simpa [(hcall t).symm] using hrelease)
      exact ⟨ht, by simpa [newInner, heq] using hheld.2⟩

/-! ## The graph -/

/-- `parent` is, or is about to be, linked to `child`. -/
def IsParent (s : Store) (P : Op → Prop) (parent child : TokenId) : Prop :=
  child ∈ s.children parent ∨ ∃ todo parents, P (.linking todo parents child) ∧ parent ∈ parents

/-- Something is still to be done for the child of a cancelled parent. -/
def Covered (s : Store) (P : Op → Prop) (parent child : TokenId) : Prop :=
  (∃ reason, P (.cas child reason)) ∨
  (child ∈ s.children parent ∧ ∃ reason, P (.spread parent reason)) ∨
  P (.load parent (.inherit child)) ∨
  ∃ todo parents, P (.linking todo parents child) ∧ parent ∈ parents

/-- Cancelled by request, or by a parent that was. -/
def ByRequest (s : Store) (token : TokenId) : Prop :=
  s.reason token = some .requested ∨ s.reason token = some .parent

structure Graph (calls : List Call) (s : Store) (P : Op → Prop) : Prop where
  fresh : ∀ t, s.nextToken ≤ t → s.reason t = none ∧ s.children t = []
  child : ∀ p c, c ∈ s.children p → Derived calls p c
  linking : ∀ todo parents c, P (.linking todo parents c) → todo ⊆ parents ∧
    ∀ p ∈ parents, Derived calls p c ∧ (p ∈ todo ∨ (held s c → c ∈ s.children p))
  inherit : ∀ p c, P (.load p (.inherit c)) ∨ P (.clock p (.inherit c)) → Derived calls p c
  cas : ∀ c r, P (.cas c r) → c < s.nextToken ∧
    (r = .parent → ∃ p, Derived calls p c ∧ ByRequest s p) ∧ (r = .requested → .cancel c ∈ calls)
  upgrade : ∀ t, P (.upgrade t) → t < s.nextToken
  spread : ∀ t r, P (.spread t r) → s.reason t = some r
  linked : ∀ p c, Derived calls p c → held s c → IsParent s P p c
  covered : ∀ p c, Derived calls p c → held s c → s.reason p ≠ none →
    s.reason c ≠ none ∨ Covered s P p c
  byParent : ∀ c, s.reason c = some .parent → ∃ p, Derived calls p c ∧ ByRequest s p
  byRequest : ∀ c, s.reason c = some .requested → .cancel c ∈ calls
  asked : ∀ c, Asked calls c → s.reason c ≠ none ∨ ∃ r, P (.cas c r)
  scheduled : ∀ entry ∈ s.scheduled, entry.token < s.nextToken

/-- A new operation that is in its place in the graph. -/
def Op.Fits (calls calls' : List Call) (s : Store) : Op → Prop
  | .cas c r => c < s.nextToken ∧ (r = .parent → ∃ p, Derived calls p c ∧ ByRequest s p) ∧
    (r = .requested → .cancel c ∈ calls')
  | .upgrade t => t < s.nextToken
  | .load p (.inherit c) | .clock p (.inherit c) => Derived calls p c
  | .linking _ _ _ | .spread _ _ => False
  | _ => True

/-- A finished operation whose work is done or handed on. -/
def Op.Settled (s : Store) (P' : Op → Prop) : Op → Prop
  | .cas c _ => s.reason c ≠ none
  | .spread t _ => ∀ c ∈ s.children t, held s c → ∃ r, P' (.cas c r)
  | .load p (.inherit c) => s.reason p = none ∨ ∃ r, P' (.cas c r)
  | .linking todo parents c => todo = [] ∧ ∀ p ∈ parents, P' (.load p (.inherit c))
  | _ => True

/-- The tokens stay, but for links to children nobody holds. -/
structure Stays (s s' : Store) : Prop where
  same : s'.nextToken = s.nextToken ∧ s'.reason = s.reason
  held : ∀ t, held s' t → held s t
  scheduled : s'.scheduled ⊆ s.scheduled
  sub : ∀ p c, c ∈ s'.children p → c ∈ s.children p
  children : ∀ p c, c ∈ s.children p → Cancellation.held s c → c ∈ s'.children p

theorem Stays.of_eq {s s' : Store}
    (hsame : s'.nextToken = s.nextToken ∧ s'.reason = s.reason ∧ s'.children = s.children)
    (hheld : ∀ t, Cancellation.held s' t → Cancellation.held s t)
    (hscheduled : s'.scheduled ⊆ s.scheduled) : Stays s s' :=
  ⟨⟨hsame.1, hsame.2.1⟩, hheld, hscheduled, fun _ _ hc => hsame.2.2 ▸ hc,
    fun _ _ hc _ => hsame.2.2 ▸ hc⟩

theorem Stays.frame {s s' : Store} (h : s'.nextToken = s.nextToken ∧ s'.reason = s.reason ∧
    s'.children = s.children ∧ s'.scheduled = s.scheduled ∧ s'.handles = s.handles) :
    Stays s s' := by
  obtain ⟨h₁, h₂, h₃, h₄, h₅⟩ := h
  refine .of_eq ⟨h₁, h₂, h₃⟩ (fun t ht => ?_) (by rw [h₄]; exact List.Subset.refl _)
  unfold Cancellation.held at ht ⊢
  rwa [← h₁, ← h₅]

theorem Stays.refl (s : Store) : Stays s s := .frame ⟨rfl, rfl, rfl, rfl, rfl⟩

/-- **Operations come and go while the tokens stay**, when the new ones fit and the finished one
is settled. -/
theorem Graph.advance {calls calls' : List Call} {s s' : Store} {P P' : Op → Prop}
    {done : Option Op} {new : List Op} (h : Graph calls s P)
    (hadv : Threads.Advances P P' done new) (hdone : ∀ op, done = some op → op.Settled s P')
    (hnew : ∀ op ∈ new, op.Fits calls calls' s) (hstays : Stays s s')
    (hmakes : made calls' = made calls) (hcalls : calls ⊆ calls')
    (hasked : ∀ c, Asked calls' c → Asked calls c ∨ ∃ r, P' (.cas c r)) : Graph calls' s' P' := by
  obtain ⟨hnext, hreason⟩ := hstays.same
  have hderived (p c) : Derived calls' p c ↔ Derived calls p c := by simp only [Derived, hmakes]
  have honly (op) (hp : P' op) : P op ∨ op.Fits calls calls' s := (hadv.only op hp).imp id (hnew op)
  have hkeeps (op) (hp : P op) : P' op ∨ op.Settled s P' := (hadv.keeps op hp).symm.imp id (hdone op)
  constructor <;> simp only [hnext, hreason, hderived, IsParent, Covered, ByRequest]
  · refine fun t ht => ⟨(h.fresh t ht).1, List.eq_nil_iff_forall_not_mem.2 fun c hc => ?_⟩
    exact List.not_mem_nil ((h.fresh t ht).2 ▸ hstays.sub t c hc)
  · exact fun p c hc => h.child p c (hstays.sub p c hc)
  · intro todo parents c hp
    obtain ⟨htodo, hlinked⟩ := h.linking todo parents c ((honly _ hp).resolve_right id)
    exact ⟨htodo, fun p hmem => ⟨(hlinked p hmem).1, (hlinked p hmem).2.imp id fun hc hd =>
      hstays.children p c (hc (hstays.held c hd)) (hstays.held c hd)⟩⟩
  · rintro p c (hp | hp)
    · exact (honly _ hp).elim (fun hp => h.inherit p c (.inl hp)) id
    · exact (honly _ hp).elim (fun hp => h.inherit p c (.inr hp)) id
  · intro c r hp
    rcases honly _ hp with hp | hfits
    · obtain ⟨hlt, hparent, hrequest⟩ := h.cas c r hp
      exact ⟨hlt, hparent, fun hr => hcalls (hrequest hr)⟩
    · exact hfits
  · exact fun t hp => (honly _ hp).elim (h.upgrade t) id
  · exact fun t r hp => h.spread t r ((honly _ hp).resolve_right id)
  · intro p c hpc hd
    have hd' := hstays.held c hd
    rcases h.linked p c hpc hd' with hc | ⟨todo, parents, hp, hmem⟩
    · exact .inl (hstays.children p c hc hd')
    · rcases hkeeps _ hp with hp' | ⟨rfl, -⟩
      · exact .inr ⟨_, _, hp', hmem⟩
      · have hlinked := ((h.linking _ _ _ hp).2 p hmem).2.resolve_left List.not_mem_nil
        exact .inl (hstays.children p c (hlinked hd') hd')
  · intro p c hpc hd hp
    have hd' := hstays.held c hd
    rcases h.covered p c hpc hd' hp with hr | ⟨r, hcas⟩ | ⟨hc, r, hsp⟩ | hload |
      ⟨todo, parents, hlink, hmem⟩
    · exact .inl hr
    · exact (hkeeps _ hcas).symm.imp id fun hcas => .inl ⟨r, hcas⟩
    · rcases hkeeps _ hsp with hsp | hcas
      · exact .inr (.inr (.inl ⟨hstays.children p c hc hd', r, hsp⟩))
      · exact .inr (.inl (hcas c hc hd'))
    · rcases hkeeps _ hload with hload | hnone | hcas
      · exact .inr (.inr (.inr (.inl hload)))
      · exact absurd hnone hp
      · exact .inr (.inl hcas)
    · rcases hkeeps _ hlink with hlink | ⟨-, hload⟩
      · exact .inr (.inr (.inr (.inr ⟨_, _, hlink, hmem⟩)))
      · exact .inr (.inr (.inr (.inl (hload p hmem))))
  · exact h.byParent
  · exact fun c hc => hcalls (h.byRequest c hc)
  · intro c hc
    rcases hasked c hc with hc | hcas
    · rcases h.asked c hc with hr | ⟨r, hcas⟩
      · exact .inl hr
      · exact (hkeeps _ hcas).symm.imp id fun hcas => ⟨r, hcas⟩
    · exact .inr hcas
  · exact fun entry hentry => h.scheduled entry (hstays.scheduled hentry)

/-- The same for an operation. -/
theorem Graph.advance_op {calls : List Call} {s s' : Store} {P P' : Op → Prop} {op : Op}
    {new : List Op} (h : Graph calls s P) (hadv : Threads.Advances P P' (some op) new)
    (hop : op.Settled s P') (hnew : ∀ op ∈ new, op.Fits calls calls s) (hstays : Stays s s') :
    Graph calls s' P' :=
  h.advance hadv (by rintro _ ⟨⟩; exact hop) hnew hstays rfl (List.Subset.refl _) fun _ => .inl

/-- And for a call that makes no token. -/
theorem Graph.advance_call {calls : List Call} {s s' : Store} {P P' : Op → Prop} {call : Call}
    {new : List Op} (h : Graph calls s P) (hadv : Threads.Advances P P' none new)
    (hmakes : call.makes = []) (hnew : ∀ op ∈ new, op.Fits calls (calls ++ [call]) s)
    (hstays : Stays s s')
    (hasked : ∀ c, call = .cancel c ∨ call = .cancelDueToDeadline c → ∃ r, .cas c r ∈ new) :
    Graph (calls ++ [call]) s' P' :=
  h.advance hadv nofun hnew hstays (by rw [made_append, hmakes, List.append_nil])
    (List.subset_append_left _ _) fun c hc => (asked_append.1 hc).imp id fun hc =>
      (hasked c hc).imp fun r hr => hadv.adds _ hr

section Steps

variable {calls : List Call} {s : Store} {P P' : Op → Prop}

theorem Graph.cas_success {t : TokenId} {r : CancellationReason} (h : Graph calls s P)
    (hop : P (.cas t r)) (hreason : s.reason t = none)
    (hadv : Threads.Advances P P' (some (.cas t r)) [.takeWaiters t, .spread t r]) :
    Graph calls { s with reason := Function.update s.reason t (some r) } P' := by
  have hlinking (todo parents c) : P' (.linking todo parents c) ↔ P (.linking todo parents c) :=
    hadv.pending_iff (by simp) (by simp)
  have hload (p c) : P' (.load p (.inherit c)) ↔ P (.load p (.inherit c)) :=
    hadv.pending_iff (by simp) (by simp)
  have hclock (p c) : P' (.clock p (.inherit c)) ↔ P (.clock p (.inherit c)) :=
    hadv.pending_iff (by simp) (by simp)
  have hupgrade (c) : P' (.upgrade c) ↔ P (.upgrade c) := hadv.pending_iff (by simp) (by simp)
  have hcas (c r') (hp : P' (.cas c r')) : P (.cas c r') := by
    simpa using hadv.only _ hp
  have hcas' (c r') (hp : P (.cas c r')) : (c = t ∧ r' = r) ∨ P' (.cas c r') := by
    simpa [eq_comm] using hadv.keeps _ hp
  have hspread (c r') (hp : P' (.spread c r')) : P (.spread c r') ∨ (c = t ∧ r' = r) := by
    simpa using hadv.only _ hp
  have hspread' (c r') (hp : P (.spread c r')) : P' (.spread c r') := by
    simpa using hadv.keeps _ hp
  have hspreadt : P' (.spread t r) := hadv.adds _ (by simp)
  have hheld (c) : held { s with reason := Function.update s.reason t (some r) } c ↔ held s c :=
    Iff.rfl
  obtain ⟨hfresh, hchild, hlink, hinherit, hcas₀, hup, hspread₀, hlinked, hcovered, hby, hreq,
    hasked, hsched⟩ := h
  have hrec (p) : ByRequest s p →
      ByRequest { s with reason := Function.update s.reason t (some r) } p := by
    simp only [ByRequest, Function.update_apply]
    grind
  constructor <;> try simp only [hheld, IsParent, Covered, hlinking, Function.update_apply]
  · grind
  · exact hchild
  · exact hlink
  · simpa only [hload, hclock] using hinherit
  · grind
  · simpa only [hupgrade] using hup
  · grind
  · exact hlinked
  · grind [Covered, IsParent]
  · grind
  · grind
  · grind
  · exact hsched

theorem held_alive {c : TokenId} (h : held s c) : alive s c = true :=
  decide_eq_true (Nat.lt_of_lt_of_le h.2 (Nat.le_add_right _ _))

theorem Graph.spread_children {t : TokenId} {r : CancellationReason} (h : Graph calls s P)
    (hlt : ∀ p c, Derived calls p c → c < s.nextToken) (hop : P (.spread t r))
    (hadv : Threads.Advances P P' (some (.spread t r)) (exec s (.spread t r)).2) :
    Graph calls (exec s (.spread t r)).1 P' := by
  have hinherited : inherited r = .parent → r = .requested ∨ r = .parent := by
    cases r <;> simp [inherited]
  have hrequested : inherited r ≠ .requested := by
    cases r <;> simp [inherited]
  have hchildren (p c) : c ∈ (exec s (.spread t r)).1.children p ↔
      c ∈ s.children p ∧ (p = t → alive s c) := by
    by_cases hp : p = t
    · subst hp
      simp [exec, leave, retain]
    · simp [exec, leave, retain, hp]
  refine h.advance_op hadv (fun c hc hd => ⟨inherited r, hadv.adds _ ?_⟩) (fun op hmem => ?_)
    ⟨⟨rfl, rfl⟩, fun _ => id, List.Subset.refl _, fun p c hc => ((hchildren p c).1 hc).1,
      fun p c hc hd => (hchildren p c).2 ⟨hc, fun _ => held_alive hd⟩⟩
  · simpa [exec] using ⟨hc, held_alive hd⟩
  · obtain ⟨c, hc, rfl⟩ := List.mem_map.1 hmem
    have htc := h.child t c (List.mem_filter.1 (List.mem_reverse.1 hc)).1
    refine ⟨hlt t c htc, fun hr => ⟨t, htc, ?_⟩, fun hr => absurd hr hrequested⟩
    unfold ByRequest
    rw [h.spread t r hop]
    exact (hinherited hr).imp (fun h => by rw [h]) fun h => by rw [h]

theorem Graph.link {q : TokenId} {todo parents : List TokenId} {c : TokenId} (h : Graph calls s P)
    (hlt : ∀ p c, Derived calls p c → p < c ∧ c < s.nextToken)
    (hop : P (.linking (q :: todo) parents c))
    (hadv : Threads.Advances P P' (some (.linking (q :: todo) parents c))
      [.linking todo parents c]) :
    Graph calls (exec s (.linking (q :: todo) parents c)).1 P' := by
  have hload (p c) : P' (.load p (.inherit c)) ↔ P (.load p (.inherit c)) :=
    hadv.pending_iff (by simp) (by simp)
  have hclock (p c) : P' (.clock p (.inherit c)) ↔ P (.clock p (.inherit c)) :=
    hadv.pending_iff (by simp) (by simp)
  have hcas (c r) : P' (.cas c r) ↔ P (.cas c r) := hadv.pending_iff (by simp) (by simp)
  have hupgrade (c) : P' (.upgrade c) ↔ P (.upgrade c) := hadv.pending_iff (by simp) (by simp)
  have hspread (t r) : P' (.spread t r) ↔ P (.spread t r) := hadv.pending_iff (by simp) (by simp)
  have hlinking (todo' parents' c') (hp : P' (.linking todo' parents' c')) :
      P (.linking todo' parents' c') ∨ (todo' = todo ∧ parents' = parents ∧ c' = c) := by
    simpa using hadv.only _ hp
  have hlinking' (todo' parents' c') (hp : P (.linking todo' parents' c')) :
      (todo' = q :: todo ∧ parents' = parents ∧ c' = c) ∨ P' (.linking todo' parents' c') := by
    simpa [eq_comm] using hadv.keeps _ hp
  have hnew : P' (.linking todo parents c) := hadv.adds _ (by simp)
  obtain ⟨hfresh, hchild, hlink, hinherit, hcas₀, hup, hspread₀, hlinked, hcovered, hby, hreq,
    hasked, hsched⟩ := h
  obtain ⟨htodo, hdone⟩ := hlink _ _ _ hop
  have hqc : Derived calls q c := (hdone q (htodo List.mem_cons_self)).1
  have hmem (p d) : d ∈ (exec s (.linking (q :: todo) parents c)).1.children p ↔
      (d ∈ s.children p ∧ (p = q → alive s d)) ∨ (p = q ∧ d = c) := by
    by_cases hp : p = q
    · subst hp
      simp [exec]
    · simp [exec, hp]
  have hstays (p d) (hd : d ∈ s.children p) (hh : held s d) :
      d ∈ (exec s (.linking (q :: todo) parents c)).1.children p :=
    (hmem p d).2 (.inl ⟨hd, fun _ => held_alive hh⟩)
  have hheld (d) : held (exec s (.linking (q :: todo) parents c)).1 d ↔ held s d := Iff.rfl
  have hsame : (exec s (.linking (q :: todo) parents c)).1.reason = s.reason ∧
      (exec s (.linking (q :: todo) parents c)).1.nextToken = s.nextToken ∧
      (exec s (.linking (q :: todo) parents c)).1.scheduled = s.scheduled := ⟨rfl, rfl, rfl⟩
  have hpending {p d : TokenId} (hd : ∃ todo' parents', P (.linking todo' parents' d) ∧
      p ∈ parents') : ∃ todo' parents', P' (.linking todo' parents' d) ∧ p ∈ parents' := by
    obtain ⟨todo', parents', hp, hpp⟩ := hd
    rcases hlinking' _ _ _ hp with ⟨rfl, rfl, rfl⟩ | hp
    · exact ⟨_, _, hnew, hpp⟩
    · exact ⟨_, _, hp, hpp⟩
  constructor <;> try simp only [hheld, hsame, IsParent, Covered, ByRequest, hload, hclock, hcas,
    hspread]
  · refine fun t ht => ⟨(hfresh t ht).1, List.eq_nil_iff_forall_not_mem.2 fun d hd => ?_⟩
    rcases (hmem t d).1 hd with ⟨hd, -⟩ | ⟨rfl, -⟩
    · rw [(hfresh t ht).2] at hd
      cases hd
    · obtain ⟨h₁, h₂⟩ := hlt _ _ hqc
      exact absurd (h₁.trans h₂) (Nat.not_lt.2 ht)
  · intro p d hd
    rcases (hmem p d).1 hd with ⟨hd, -⟩ | ⟨rfl, rfl⟩
    · exact hchild p d hd
    · exact hqc
  · intro todo' parents' d hp
    rcases hlinking _ _ _ hp with hp | ⟨rfl, rfl, rfl⟩
    · obtain ⟨h₁, h₂⟩ := hlink _ _ _ hp
      exact ⟨h₁, fun p hp => ⟨(h₂ p hp).1, (h₂ p hp).2.imp id fun hc hd => hstays p d (hc hd) hd⟩⟩
    · refine ⟨fun p hp => htodo (List.mem_cons_of_mem _ hp), fun p hp => ⟨(hdone p hp).1, ?_⟩⟩
      rcases (hdone p hp).2 with hmem' | hc
      · rcases List.mem_cons.1 hmem' with rfl | hmem'
        · exact .inr fun _ => (hmem _ _).2 (.inr ⟨rfl, rfl⟩)
        · exact .inl hmem'
      · exact .inr fun hd => hstays p _ (hc hd) hd
  · exact hinherit
  · exact hcas₀
  · simpa only [hupgrade] using hup
  · exact hspread₀
  · exact fun p d hpd hd => (hlinked p d hpd hd).imp (fun hc => hstays p d hc hd) hpending
  · intro p d hpd hd hp
    refine (hcovered p d hpd hd hp).imp id ?_
    rintro (hcas | ⟨hc, hsp⟩ | hload | hpp)
    · exact .inl hcas
    · exact .inr (.inl ⟨hstays p d hc hd, hsp⟩)
    · exact .inr (.inr (.inl hload))
    · exact .inr (.inr (.inr (hpending hpp)))
  · exact hby
  · exact hreq
  · exact hasked
  · exact hsched

theorem Graph.ask_parents {parents : List TokenId} {c : TokenId} (h : Graph calls s P)
    (hop : P (.linking [] parents c))
    (hadv : Threads.Advances P P' (some (.linking [] parents c))
      (parents.map fun parent => .load parent (.inherit c))) : Graph calls s P' := by
  refine h.advance_op hadv ⟨rfl, fun p hp => hadv.adds _ (List.mem_map_of_mem hp)⟩
    (fun op hmem => ?_) (.refl s)
  obtain ⟨p, hp, rfl⟩ := List.mem_map.1 hmem
  exact ((h.linking _ _ _ hop).2 p hp).1

/-- A recorded or expired reason goes on to the child. -/
theorem Graph.inherit_reason {p c : TokenId} {done : Op} {reason : CancellationReason}
    (h : Graph calls s P) (hlt : ∀ p c, Derived calls p c → c < s.nextToken)
    (hpc : Derived calls p c) (hdone : (∃ r, P' (.cas c r)) → done.Settled s P')
    (hreason : s.reason p = some reason ∨ reason = .deadline)
    (hadv : Threads.Advances P P' (some done) [.cas c (inherited reason)]) :
    Graph calls (retain s [c]) P' := by
  have hinherited : inherited reason = .parent → ByRequest s p := by
    rcases hreason with hr | rfl
    · unfold ByRequest
      rw [hr]
      cases reason <;> simp [inherited]
    · simp [inherited]
  have hrequested : inherited reason ≠ .requested := by
    cases reason <;> simp [inherited]
  refine h.advance_op hadv (hdone ⟨_, hadv.adds _ List.mem_cons_self⟩) (fun op hmem => ?_) (.frame ⟨rfl, rfl, rfl, rfl, rfl⟩)
  cases List.mem_singleton.1 hmem
  exact ⟨hlt p c hpc, fun hr => ⟨p, hpc, hinherited hr⟩, fun hr => absurd hr hrequested⟩

/-- A new token adds at most its own deadline. -/
theorem mem_scheduled_newInner {s : Store} {deadline : Option Instant} {entry : ScheduledDeadline}
    (h : entry ∈ (newInner s deadline).scheduled) :
    entry ∈ s.scheduled ∨ entry.token = s.nextToken := by
  unfold newInner at h
  dsimp only at h
  split at h
  next due =>
    split at h
    next =>
      unfold schedule at h
      rcases List.mem_append.1 h with hmem | hmem
      · split at hmem
        next => exact .inl (List.mem_filter.1 hmem).1
        next => exact .inl hmem
      · exact .inr (by rw [List.mem_singleton.1 hmem])
    next => exact .inl h
  next => exact .inl h

/-- A new token joins, with the link to its parents still to be made. -/
theorem Graph.alloc {call : Call} {m : List TokenId × Option Instant} {deadline : Option Instant}
    (h : Graph calls s P) (hb : Built calls s) (hmakes : call.makes = [m])
    (hcall : ∀ t, call ≠ .cancel t ∧ call ≠ .cancelDueToDeadline t)
    (honly : ∀ op, P' op → P op ∨ op = .linking m.1 m.1 s.nextToken)
    (hnew : m.1 ≠ [] → P' (.linking m.1 m.1 s.nextToken))
    (hkeeps : ∀ op, P op → P' op) : Graph (calls ++ [call]) (newInner s deadline) P' := by
  have hcas (d r) : P' (.cas d r) ↔ P (.cas d r) :=
    ⟨fun hp => by simpa using honly _ hp, hkeeps _⟩
  have hspread (t r) : P' (.spread t r) ↔ P (.spread t r) :=
    ⟨fun hp => by simpa using honly _ hp, hkeeps _⟩
  have hupgrade (t) : P' (.upgrade t) ↔ P (.upgrade t) :=
    ⟨fun hp => by simpa using honly _ hp, hkeeps _⟩
  have hload (t c) : P' (.load t (.inherit c)) ↔ P (.load t (.inherit c)) :=
    ⟨fun hp => by simpa using honly _ hp, hkeeps _⟩
  have hclock (t c) : P' (.clock t (.inherit c)) ↔ P (.clock t (.inherit c)) :=
    ⟨fun hp => by simpa using honly _ hp, hkeeps _⟩
  have hlinking (todo ps c) (hp : P' (.linking todo ps c)) :
      P (.linking todo ps c) ∨ (todo = m.1 ∧ ps = m.1 ∧ c = s.nextToken) := by
    simpa using honly _ hp
  have hderived (p c) : Derived (calls ++ [call]) p c ↔
      Derived calls p c ∨ c = s.nextToken ∧ p ∈ m.1 := by
    rw [derived_append hmakes, hb.made]
  have hlt {p c} (hpc : Derived calls p c) : c < s.nextToken := hb.made ▸ hpc.lt
  obtain ⟨hfresh, hchild, hlink, hinherit, hcas₀, hup, hspread₀, hlinked, hcovered, hby, hreq,
    hasked, hsched⟩ := h
  obtain ⟨hr, hc⟩ := hfresh s.nextToken (Nat.le_refl _)
  have hreason : (newInner s deadline).reason = s.reason := Function.update_eq_self_iff.2 hr.symm
  have hchildren : (newInner s deadline).children = s.children :=
    Function.update_eq_self_iff.2 hc.symm
  have hnext : (newInner s deadline).nextToken = s.nextToken + 1 := rfl
  have hheld (c) (hc : c < s.nextToken) (hh : held (newInner s deadline) c) : held s c := by
    have hhandles : (newInner s deadline).handles c = s.handles c :=
      Function.update_of_ne (Nat.ne_of_lt hc) _ _
    exact ⟨hc, hhandles ▸ hh.2⟩
  have hnewLink {p} (hp : p ∈ m.1) : ∃ todo parents, P' (.linking todo parents s.nextToken) ∧
      p ∈ parents := ⟨_, _, hnew (List.ne_nil_of_mem hp), hp⟩
  have hpending {p d} (hd : ∃ todo parents, P (.linking todo parents d) ∧ p ∈ parents) :
      ∃ todo parents, P' (.linking todo parents d) ∧ p ∈ parents := by
    obtain ⟨todo, parents, hp, hmem⟩ := hd
    exact ⟨todo, parents, hkeeps _ hp, hmem⟩
  have hrequest (p) : ByRequest (newInner s deadline) p ↔ ByRequest s p := by
    simp only [ByRequest, hreason]
  constructor <;> simp only [hreason, hchildren, hnext, hrequest, hderived, IsParent, Covered, hcas,
    hspread, hupgrade, hload, hclock]
  · exact fun t ht => hfresh t (Nat.le_of_succ_le ht)
  · exact fun p c hc => .inl (hchild p c hc)
  · intro todo ps c hp
    rcases hlinking _ _ _ hp with hp | ⟨rfl, rfl, rfl⟩
    · obtain ⟨h₁, h₂⟩ := hlink _ _ _ hp
      exact ⟨h₁, fun p hp => ⟨.inl (h₂ p hp).1,
        (h₂ p hp).2.imp id fun hc hh => hc (hheld c (hlt (h₂ p hp).1) hh)⟩⟩
    · exact ⟨List.Subset.refl _, fun p hp => ⟨.inr ⟨rfl, hp⟩, .inl hp⟩⟩
  · exact fun p c hp => .inl (hinherit p c hp)
  · intro c r hp
    obtain ⟨h₁, h₂, h₃⟩ := hcas₀ c r hp
    refine ⟨h₁.trans (Nat.lt_succ_self _), fun hr => ?_, fun hr => List.mem_append_left _ (h₃ hr)⟩
    obtain ⟨p, hpc, hreq⟩ := h₂ hr
    exact ⟨p, .inl hpc, hreq⟩
  · exact fun t ht => (hup t ht).trans (Nat.lt_succ_self _)
  · exact hspread₀
  · rintro p c (hpc | ⟨rfl, hp⟩) hh
    · exact (hlinked p c hpc (hheld c (hlt hpc) hh)).imp id hpending
    · exact .inr (hnewLink hp)
  · rintro p c (hpc | ⟨rfl, hp⟩) hh hp'
    · refine (hcovered p c hpc (hheld c (hlt hpc) hh) hp').imp id ?_
      rintro (h₁ | h₁ | h₁ | h₁)
      · exact .inl h₁
      · exact .inr (.inl h₁)
      · exact .inr (.inr (.inl h₁))
      · exact .inr (.inr (.inr (hpending h₁)))
    · exact .inr (.inr (.inr (.inr (hnewLink hp))))
  · intro c hc
    obtain ⟨p, hpc, hreq⟩ := hby c hc
    exact ⟨p, .inl hpc, hreq⟩
  · exact fun c hc => List.mem_append_left _ (hreq c hc)
  · intro c hc
    rcases asked_append.1 hc with hc | hc
    · exact hasked c hc
    · exact absurd hc (not_or.2 (hcall c))
  · intro entry hentry
    rcases mem_scheduled_newInner hentry with hmem | htoken
    · exact (hsched entry hmem).trans (Nat.lt_succ_self _)
    · exact htoken ▸ Nat.lt_succ_self _

/-- A cancellation someone asks for starts. -/
theorem Graph.cancel {t : TokenId} {r : CancellationReason} {call : Call} (h : Graph calls s P)
    (ht : t < s.nextToken)
    (hcall : (call = .cancel t ∧ r = .requested) ∨ (call = .cancelDueToDeadline t ∧ r = .deadline))
    (hadv : Threads.Advances P P' none [.cas t r]) :
    Graph (calls ++ [call]) (retain s [t]) P' := by
  refine h.advance_call hadv ?_ (fun op hmem => ?_) (.frame ⟨rfl, rfl, rfl, rfl, rfl⟩) fun c hc => ⟨r, ?_⟩
  · rcases hcall with ⟨rfl, -⟩ | ⟨rfl, -⟩ <;> rfl
  · cases List.mem_singleton.1 hmem
    rcases hcall with ⟨rfl, rfl⟩ | ⟨rfl, rfl⟩ <;> exact ⟨ht, by simp, by simp⟩
  · rcases hcall with ⟨rfl, -⟩ | ⟨rfl, -⟩ <;> simpa [eq_comm] using hc

end Steps

/-! ## Each step -/

theorem exec_cas (s : Store) (t : TokenId) (r : CancellationReason) :
    exec s (.cas t r) =
      if s.reason t = none then
        ({ s with reason := Function.update s.reason t (some r) }, [.takeWaiters t, .spread t r])
      else (leave s t, []) := rfl

theorem exec_upgrade (s : Store) (t : TokenId) :
    exec s (.upgrade t) =
      if alive s t then (retain s [t], [.cas t .deadline]) else (s, []) := rfl

theorem exec_load_some {s : Store} {t : TokenId} {r : CancellationReason} (h : s.reason t = some r)
    (asker : Asker) : exec s (.load t asker) = resume s asker (some r) := by
  simp only [exec, h]

theorem exec_load_none {s : Store} {t : TokenId} (h : s.reason t = none) (asker : Asker) :
    exec s (.load t asker) = (s, [.clock t asker]) := by
  simp only [exec, h]

theorem exec_clock (s : Store) (t : TokenId) (asker : Asker) :
    exec s (.clock t asker) =
      resume s asker (if expired s t then some .deadline else none) := rfl

/-- Who goes on with a reason changes no token but its strong count. -/
theorem resume_frame (s : Store) (asker : Asker) (r : Option CancellationReason) :
    (resume s asker r).1.nextToken = s.nextToken ∧ (resume s asker r).1.reason = s.reason ∧
      (resume s asker r).1.children = s.children ∧
      (resume s asker r).1.scheduled = s.scheduled ∧ (resume s asker r).1.handles = s.handles ∧
      (resume s asker r).1.deadline = s.deadline := by
  cases asker <;> cases r <;> exact ⟨rfl, rfl, rfl, rfl, rfl, rfl⟩

/-- No operation makes a token, moves a deadline or takes a handle. -/
theorem exec_frame (s : Store) (op : Op) : (exec s op).1.nextToken = s.nextToken ∧
    (exec s op).1.deadline = s.deadline ∧ (exec s op).1.handles = s.handles := by
  have hresume (asker : Asker) (r : Option CancellationReason) :
      (resume s asker r).1.nextToken = s.nextToken ∧
      (resume s asker r).1.deadline = s.deadline ∧ (resume s asker r).1.handles = s.handles := by
    obtain ⟨h₁, -, -, -, h₂, h₃⟩ := resume_frame s asker r
    exact ⟨h₁, h₃, h₂⟩
  cases op with
  | cas t r | upgrade t | wake w k =>
    simp only [exec]
    split <;> exact ⟨rfl, rfl, rfl⟩
  | linking todo parents c => cases todo <;> exact ⟨rfl, rfl, rfl⟩
  | load t asker =>
    cases hr : s.reason t with
    | none =>
      rw [exec_load_none hr]
      exact ⟨rfl, rfl, rfl⟩
    | some r =>
      rw [exec_load_some hr]
      exact hresume asker _
  | clock t asker =>
    rw [exec_clock]
    exact hresume asker _
  | takeWaiters t | spread t r | register w k | unregister w o => exact ⟨rfl, rfl, rfl⟩

/-- A future goes on with a reason. -/
theorem Graph.resume {calls : List Call} {s : Store} {P P' : Op → Prop} {done : Op} {asker : Asker}
    (h : Graph calls s P) (hasker : ∀ c, asker ≠ .inherit c) (hdone : done.Settled s P')
    (r : Option CancellationReason)
    (hadv : Threads.Advances P P' (some done) (resume s asker r).2) :
    Graph calls (resume s asker r).1 P' := by
  obtain ⟨h₁, h₂, h₃, h₄, h₅, -⟩ := resume_frame s asker r
  refine h.advance_op hadv hdone (fun op hmem => ?_) (.frame ⟨h₁, h₂, h₃, h₄, h₅⟩)
  cases asker with
  | inherit c => exact absurd rfl (hasker c)
  | firstCheck w k | secondCheck w => cases r <;> simp_all [Cancellation.resume, Op.Fits]

theorem built_keeps : tokens.Keeps fun calls s _ => Built calls s where
  exec calls s P P' op h _ _ := by
    obtain ⟨hnext, hdeadline, hhandles⟩ := exec_frame s op
    refine h.congr rfl ⟨hnext, hdeadline⟩ fun t ht => ⟨ht, fun hh => ?_⟩
    show t < (exec s op).1.nextToken ∧ 0 < (exec s op).1.handles t
    rw [hnext, hhandles]
    exact hh
  start calls s P P' call s' ops h hstart _ := by
    have hmade (hmakes : call.makes = []) : made (calls ++ [call]) = made calls := by
      rw [made_append, hmakes, List.append_nil]
    have hrelease (t : TokenId) (ht : .release t ∉ calls ++ [call]) : .release t ∉ calls :=
      fun hmem => ht (List.mem_append_left _ hmem)
    have hsame (hmakes : call.makes = []) (hnext : s'.nextToken = s.nextToken)
        (hdeadline : s'.deadline = s.deadline) (hhandles : s'.handles = s.handles) :
        Built (calls ++ [call]) s' := by
      refine h.congr (hmade hmakes) ⟨hnext, hdeadline⟩ fun t ht => ⟨hrelease t ht, fun hh => ?_⟩
      unfold held
      rwa [hnext, hhandles]
    cases call with
    | token deadline =>
      cases hstart
      exact h.alloc rfl nofun (by simp) (by cases deadline <;> simp [NotLater])
    | childToken parent | childTokenWithDeadline parent deadline =>
      obtain ⟨hp, hs⟩ := Option.ite_none_right_eq_some.1 hstart
      cases hs
      refine h.alloc rfl nofun (fun p hmem => ?_) ?_
      · rw [List.mem_singleton.1 hmem]
        exact ⟨hp.1, (nearer_notLater _ _).1⟩
      · first
        | exact trivial
        | exact (nearer_notLater _ _).2
    | linked parents =>
      obtain ⟨hp, hs⟩ := Option.ite_none_right_eq_some.1 hstart
      cases hs
      exact h.alloc rfl nofun (fun p hmem => ⟨(hp p hmem).1, min_notLater hmem⟩) trivial
    | clone t =>
      obtain ⟨hp, hs⟩ := Option.ite_none_right_eq_some.1 hstart
      cases hs
      refine h.congr (hmade rfl) ⟨rfl, rfl⟩ fun t' ht => ⟨hrelease t' ht, fun hh => ⟨hh.1, ?_⟩⟩
      by_cases heq : t' = t
      · subst heq
        simp
      · simpa [heq] using hh.2
    | release t =>
      obtain ⟨hp, hs⟩ := Option.ite_none_right_eq_some.1 hstart
      cases hs
      refine h.congr (hmade rfl) ⟨rfl, rfl⟩ fun t' ht => ⟨hrelease t' ht, fun hh => ⟨hh.1, ?_⟩⟩
      have heq : t' ≠ t := by
        rintro rfl
        exact ht (by simp)
      simpa [heq] using hh.2
    | drop w =>
      obtain ⟨-, hs⟩ := Option.ite_none_right_eq_some.1 hstart
      split at hs <;> cases hs <;> exact hsame rfl rfl rfl rfl
    | cancel t | cancelDueToDeadline t | cancelled t | poll w k | fire entry | tick now =>
      obtain ⟨-, hs⟩ := Option.ite_none_right_eq_some.1 hstart
      cases hs
      exact hsame rfl rfl rfl rfl

theorem graph_exec (calls : List Call) (s : Store) (P P' : Op → Prop) (op : Op)
    (hb : Built calls s) (h : Graph calls s P) (hop : P op)
    (hadv : Threads.Advances P P' (some op) (exec s op).2) : Graph calls (exec s op).1 P' := by
  have hlt (p c) (hpc : Derived calls p c) : c < s.nextToken := hb.made ▸ hpc.lt
  cases op with
  | cas t r =>
    rw [exec_cas] at hadv ⊢
    by_cases hr : s.reason t = none
    · rw [if_pos hr] at hadv ⊢
      exact h.cas_success hop hr hadv
    · rw [if_neg hr] at hadv ⊢
      exact h.advance_op hadv hr (by simp) (.frame ⟨rfl, rfl, rfl, rfl, rfl⟩)
  | takeWaiters t =>
    refine h.advance_op hadv trivial (fun op hmem => ?_) (.frame ⟨rfl, rfl, rfl, rfl, rfl⟩)
    obtain ⟨entry, -, rfl⟩ := List.mem_map.1 hmem
    trivial
  | wake w k =>
    by_cases hd : (s.futures w).dropped
    all_goals
      simp only [exec, hd] at hadv ⊢
      exact h.advance_op hadv trivial (by simp) (.frame ⟨rfl, rfl, rfl, rfl, rfl⟩)
  | spread t r => exact h.spread_children hlt hop hadv
  | linking todo parents c =>
    cases todo with
    | nil => exact h.ask_parents hop hadv
    | cons q todo => exact h.link (fun p c hpc => ⟨(hb.edge p c hpc).1, hlt p c hpc⟩) hop hadv
  | upgrade t =>
    rw [exec_upgrade] at hadv ⊢
    by_cases hlive : alive s t
    · rw [if_pos hlive] at hadv ⊢
      refine h.advance_op hadv trivial (fun op hmem => ?_) (.frame ⟨rfl, rfl, rfl, rfl, rfl⟩)
      cases List.mem_singleton.1 hmem
      exact ⟨h.upgrade t hop, by simp, by simp⟩
    · rw [if_neg hlive] at hadv ⊢
      exact h.advance_op hadv trivial (by simp) (.refl s)
  | load t asker =>
    cases hr : s.reason t with
    | none =>
      rw [exec_load_none hr] at hadv ⊢
      refine h.advance_op hadv ?_ (fun op hmem => ?_) (.refl s)
      · cases asker with
        | inherit c => exact .inl hr
        | firstCheck w k | secondCheck w => trivial
      · cases List.mem_singleton.1 hmem
        cases asker with
        | inherit c => exact h.inherit t c (.inl hop)
        | firstCheck w k | secondCheck w => trivial
    | some r =>
      rw [exec_load_some hr] at hadv ⊢
      cases asker with
      | inherit c =>
        exact h.inherit_reason hlt (h.inherit t c (.inl hop)) (by exact .inr) (.inl hr) hadv
      | firstCheck w k | secondCheck w => exact h.resume (by simp) (by trivial) (some r) hadv
  | clock t asker =>
    rw [exec_clock] at hadv ⊢
    cases asker with
    | inherit c =>
      by_cases he : expired s t
      · rw [if_pos he] at hadv ⊢
        exact h.inherit_reason hlt (h.inherit t c (.inr hop)) (by exact fun _ => trivial)
          (.inr rfl) hadv
      · rw [if_neg he] at hadv ⊢
        exact h.advance_op hadv trivial (by simp [resume]) (.refl s)
    | firstCheck w k | secondCheck w => exact h.resume (by simp) (by trivial) _ hadv
  | register w k | unregister w o =>
    exact h.advance_op hadv trivial (by simp [exec, Op.Fits]) (.frame ⟨rfl, rfl, rfl, rfl, rfl⟩)

theorem graph_start (calls : List Call) (s : Store) (P P' : Op → Prop) (call : Call) (s' : Store)
    (ops : List Op) (hb : Built calls s) (h : Graph calls s P) (hstart : start s call = some (s', ops))
    (hadv : Threads.Advances P P' none ops) : Graph (calls ++ [call]) s' P' := by
  have hkeeps (op) (hp : P op) : P' op := (hadv.keeps op hp).resolve_left nofun
  cases call with
  | token deadline =>
    cases hstart
    exact h.alloc hb rfl (by simp) (fun op hp => .inl (by simpa using hadv.only op hp)) (by simp)
      hkeeps
  | childToken parent | childTokenWithDeadline parent deadline | linked parents =>
    obtain ⟨-, hs⟩ := Option.ite_none_right_eq_some.1 hstart
    cases hs
    exact h.alloc hb rfl (by simp) (fun op hp => by simpa using hadv.only op hp)
      (fun _ => hadv.adds _ (by simp)) hkeeps
  | cancel t =>
    obtain ⟨ht, hs⟩ := Option.ite_none_right_eq_some.1 hstart
    cases hs
    exact h.cancel ht.1 (.inl ⟨rfl, rfl⟩) hadv
  | cancelDueToDeadline t =>
    obtain ⟨ht, hs⟩ := Option.ite_none_right_eq_some.1 hstart
    cases hs
    exact h.cancel ht.1 (.inr ⟨rfl, rfl⟩) hadv
  | fire entry =>
    obtain ⟨⟨hmem, -⟩, hs⟩ := Option.ite_none_right_eq_some.1 hstart
    cases hs
    exact h.advance_call hadv rfl (by simpa [Op.Fits] using h.scheduled entry hmem)
      (.of_eq ⟨rfl, rfl, rfl⟩ (fun _ => id) List.erase_subset) (by simp)
  | clone t | release t =>
    obtain ⟨ht, hs⟩ := Option.ite_none_right_eq_some.1 hstart
    cases hs
    refine h.advance_call hadv rfl (by simp)
      (.of_eq ⟨rfl, rfl, rfl⟩ (fun t' hh => ?_) (List.Subset.refl _)) (by simp)
    by_cases heq : t' = t
    · exact heq ▸ ht
    · exact ⟨hh.1, by simpa [heq] using hh.2⟩
  | cancelled t | tick now | poll w k =>
    obtain ⟨-, hs⟩ := Option.ite_none_right_eq_some.1 hstart
    cases hs
    exact h.advance_call hadv rfl (by simp [Op.Fits])
      (.frame ⟨rfl, rfl, rfl, rfl, rfl⟩) (by simp)
  | drop w =>
    obtain ⟨-, hs⟩ := Option.ite_none_right_eq_some.1 hstart
    split at hs
    all_goals
      cases hs
      exact h.advance_call hadv rfl (by simp [Op.Fits])
        (.frame ⟨rfl, rfl, rfl, rfl, rfl⟩) (by simp)

theorem graph_keeps : tokens.Keeps fun calls s P => Built calls s ∧ Graph calls s P where
  exec calls s P P' op h hop hadv :=
    ⟨built_keeps.exec calls s P P' op h.1 hop hadv, graph_exec calls s P P' op h.1 h.2 hop hadv⟩
  start calls s P P' call s' ops h hstart hadv :=
    ⟨built_keeps.start calls s P P' call s' ops h.1 hstart hadv,
      graph_start calls s P P' call s' ops h.1 h.2 hstart hadv⟩

end Plenora.Core.Cancellation
