import Mathlib

/-!
# The connection pool

A checkout takes a permit, then an idle client of its key or a new connection; a
dropped `PooledClient` files its client under the key, unless it was invalidated or
the connection is closed.  The semaphore counts the permits of all keys, the idle
lists are bounded key by key.  Over the runs of any number of checkouts:

    run max (initial max) events = some s → Orderly max s                (run_orderly)

with at most `max` clients checked out, and at most `max` connections of each key.
-/

namespace Plenora.Postgres.Pool

/-! ## The source -/

/-- Where a checkout stands; `popped` has left the idle list and is not looked at yet, `returned`
is a `PooledClient` whose `drop` has run and whose permit is still to go. -/
inductive Phase where
  | waiting
  | granted
  | popped (client : Option Nat)
  | connecting
  | pooled (client : Nat) (reused reusable : Bool)
  | returned
  | over
  deriving DecidableEq, Repr

/-- A call of `checkout` and the `PooledClient` it returns; `acquired` and `released` count the
times its permit was taken and given back. -/
structure Checkout (Key : Type) where
  key : Key
  validSession : Bool
  phase : Phase
  acquired : Nat
  released : Nat

/-- `available` permits, the idle clients of each key (the next to be popped last), the
connections that are closed, those the pool let go, and the number of connections made. -/
structure State (Key : Type) where
  available : Nat
  idle : Key → List Nat
  checkouts : List (Checkout Key)
  closed : List Nat
  retired : List Nat
  made : Nat

def initial {Key : Type} (maxConnections : Nat) : State Key :=
  { available := maxConnections, idle := fun _ => [], checkouts := [], closed := []
    retired := [], made := 0 }

/-- What can happen to a checkout: its own steps, the answer of the server, the loss of its
future at an await, and the calls on its `PooledClient`. -/
inductive Action where
  | acquire | timeout | abandon
  | look | inspect
  | connect (ok : Bool)
  | invalidate | markReusable | drop | release
  deriving DecidableEq

inductive Event (Key : Type) where
  | checkout (key : Key) (validSession : Bool) (acquireTimeoutMs : Nat)
  | act (checkout : Nat) (action : Action)
  | close (client : Nat)

section Source

variable {Key : Type} [DecidableEq Key]

def State.set (s : State Key) (i : Nat) (co : Checkout Key) : State Key :=
  { s with checkouts := s.checkouts.set i co }

def State.goto (s : State Key) (i : Nat) (co : Checkout Key) (phase : Phase) : State Key :=
  s.set i { co with phase }

/-- The permit goes back to the semaphore as the checkout ends. -/
def State.quit (s : State Key) (i : Nat) (co : Checkout Key) : State Key :=
  { s with available := s.available + 1 }.set i
    { co with phase := .over, released := co.released + 1 }

/-- The next step of `checkout` behind its permit: the session options are validated, then a
client is popped under the key. -/
def State.look (s : State Key) (i : Nat) (co : Checkout Key) : State Key :=
  if co.validSession then
    { s with idle := Function.update s.idle co.key (s.idle co.key).dropLast }.goto i co
      (.popped (s.idle co.key).getLast?)
  else s.quit i co

/-- `Drop::drop` of a `PooledClient`. -/
def State.dropClient (maxIdlePerKey : Nat) (s : State Key) (i : Nat) (co : Checkout Key)
    (client : Nat) (reusable : Bool) : State Key :=
  if ¬ reusable ∨ client ∈ s.closed then
    { s with retired := client :: s.retired }.goto i co .returned
  else if (s.idle co.key).length < maxIdlePerKey then
    { s with idle := Function.update s.idle co.key (s.idle co.key ++ [client]) }.goto i co .returned
  else { s with retired := client :: s.retired }.goto i co .returned

def act (maxConnections : Nat) (s : State Key) (i : Nat) (co : Checkout Key) (action : Action) :
    Option (State Key) :=
  match action, co.phase with
  | .acquire, .waiting =>
    if 0 < s.available then
      some ({ s with available := s.available - 1 }.set i
        { co with phase := .granted, acquired := co.acquired + 1 })
    else none
  | .timeout, .waiting | .abandon, .waiting => some (s.goto i co .over)
  | .look, .granted => some (s.look i co)
  | .inspect, .popped none => some (s.goto i co .connecting)
  | .inspect, .popped (some client) =>
    if client ∈ s.closed then
      some ({ s with retired := client :: s.retired }.goto i co .connecting)
    else some (s.goto i co (.pooled client true true))
  | .connect true, .connecting =>
    some ({ s with made := s.made + 1 }.goto i co (.pooled s.made false true))
  | .connect false, .connecting | .abandon, .connecting => some (s.quit i co)
  | .invalidate, .pooled client reused _ => some (s.goto i co (.pooled client reused false))
  | .markReusable, .pooled client reused _ => some (s.goto i co (.pooled client reused true))
  | .drop, .pooled client _ reusable => some (s.dropClient maxConnections i co client reusable)
  | .release, .returned => some (s.quit i co)
  | _, _ => none

def step (maxConnections : Nat) (s : State Key) : Event Key → Option (State Key)
  | .checkout key validSession acquireTimeoutMs =>
    -- a pool without connections and a timeout of zero are refused before the semaphore
    let phase := if maxConnections = 0 ∨ acquireTimeoutMs = 0 then Phase.over else .waiting
    some { s with checkouts := s.checkouts ++ [⟨key, validSession, phase, 0, 0⟩] }
  | .act i action =>
    match s.checkouts[i]? with
    | some co => act maxConnections s i co action
    | none => none
  | .close client => some { s with closed := client :: s.closed }

def run (maxConnections : Nat) (s : State Key) : List (Event Key) → Option (State Key)
  | [] => some s
  | event :: events => (step maxConnections s event).bind (run maxConnections · events)

/-! ## What a run keeps -/

def Phase.permit : Phase → Bool
  | .waiting | .over => false
  | _ => true

/-- A phase that has a client or is about to get one. -/
def Phase.busy : Phase → Bool
  | .popped _ | .connecting | .pooled _ _ _ => true
  | _ => false

def Phase.client : Phase → Option Nat
  | .popped client => client
  | .pooled client _ _ => some client
  | _ => none

/-- The `PooledClient` of checkout `i` holds `client`. -/
def State.Holds (s : State Key) (i client : Nat) : Prop :=
  ∃ co ∈ s.checkouts[i]?, co.phase.client = some client

/-- The checkouts of a key that have a client or are about to get one. -/
def State.busy (s : State Key) (key : Key) : Nat :=
  s.checkouts.countP fun co => decide (co.key = key) && co.phase.busy

/-- The connections of a key: idle ones and those a checkout has. -/
def State.connections (s : State Key) (key : Key) : Nat :=
  (s.idle key).length +
    s.checkouts.countP fun co => decide (co.key = key) && co.phase.client.isSome

/-- The permits that are out. -/
def State.permits (s : State Key) : Nat := s.checkouts.countP (·.phase.permit)

/-- Every permit is on the semaphore or with one checkout, which gives it back once. -/
structure Permits (max : Nat) (s : State Key) : Prop where
  total : s.available + s.permits = max
  once : ∀ co ∈ s.checkouts, co.acquired = co.released + co.phase.permit.toNat ∧ co.acquired ≤ 1 ∧
    (co.phase = .waiting → co.acquired = 0)

/-- The places of a connection. -/
inductive Place (Key : Type) where
  | idle (key : Key)
  | held (checkout : Nat)
  | retired

def State.At (s : State Key) (client : Nat) : Place Key → Prop
  | .idle key => client ∈ s.idle key
  | .held i => s.Holds i client
  | .retired => client ∈ s.retired

/-- Every connection is in one place, and in an idle list once. -/
structure Places (s : State Key) : Prop where
  once : ∀ client p p', s.At client p → s.At client p' → p = p'
  nodup : ∀ key, (s.idle key).Nodup
  made : ∀ client p, s.At client p → client < s.made

/-- Each key keeps to the size of the pool. -/
def Bounded (max : Nat) (s : State Key) : Prop := ∀ key, (s.idle key).length + s.busy key ≤ max

/-! ## What one action does -/

/-- The part of an action that concerns the permit. -/
inductive Permitted (s s' : State Key) (co co' : Checkout Key) : Prop
  | acquire : co.phase = .waiting → co'.phase = .granted → 0 < s.available →
    s'.available = s.available - 1 → co'.acquired = co.acquired + 1 →
    co'.released = co.released → Permitted s s' co co'
  | quit : co.phase.permit = true → co'.phase = .over → s'.available = s.available + 1 →
    co'.acquired = co.acquired → co'.released = co.released + 1 → Permitted s s' co co'
  | keep : co'.phase.permit = co.phase.permit → co'.phase ≠ .waiting →
    s'.available = s.available → co'.acquired = co.acquired → co'.released = co.released →
    Permitted s s' co co'

/-- The part of an action that concerns the clients of a key. -/
inductive Moved (max : Nat) (s s' : State Key) (key : Key) (old new : Phase) : Prop
  | keep : new.client = old.client → (new.busy = true → old.busy = true) → s'.idle = s.idle →
    s'.retired = s.retired → s'.made = s.made → Moved max s s' key old new
  | miss : s.idle key = [] → old = .granted → new = .popped none → s'.idle = s.idle →
    s'.retired = s.retired → s'.made = s.made → Moved max s s' key old new
  | pop (rest : List Nat) (client : Nat) : s.idle key = rest ++ [client] → old = .granted →
    new = .popped (some client) → s'.idle = Function.update s.idle key rest →
    s'.retired = s.retired → s'.made = s.made → Moved max s s' key old new
  | retire (client : Nat) : old.client = some client → new.client = none →
    (new.busy = true → old.busy = true) → s'.idle = s.idle → s'.retired = client :: s.retired →
    s'.made = s.made → Moved max s s' key old new
  | fresh : old = .connecting → new.client = some s.made → s'.idle = s.idle →
    s'.retired = s.retired → s'.made = s.made + 1 → Moved max s s' key old new
  | file (client : Nat) : old.client = some client → old.busy = true → new = .returned →
    (s.idle key).length < max → s'.idle = Function.update s.idle key (s.idle key ++ [client]) →
    s'.retired = s.retired → s'.made = s.made → Moved max s s' key old new

/-- **What an action does**: one checkout changes, and with it the semaphore and the clients of
its key. -/
theorem act_cases {max : Nat} {s s' : State Key} {i : Nat} {co : Checkout Key} {action : Action}
    (h : act max s i co action = some s') :
    ∃ co', s'.checkouts = s.checkouts.set i co' ∧ co'.key = co.key ∧ s'.closed = s.closed ∧
      Permitted s s' co co' ∧ Moved max s s' co.key co.phase co'.phase := by
  unfold act at h
  split at h
  next hp =>
    split at h
    next havailable =>
      cases h
      exact ⟨_, rfl, rfl, rfl, .acquire hp rfl havailable rfl rfl rfl,
        .keep (by rw [hp]; rfl) (fun hb => by cases hb) rfl rfl rfl⟩
    next => cases h
  next hp =>
    cases h
    exact ⟨_, rfl, rfl, rfl, .keep (by rw [hp]; rfl) (fun hw => by cases hw) rfl rfl rfl,
      .keep (by rw [hp]; rfl) (fun hb => by cases hb) rfl rfl rfl⟩
  next hp =>
    cases h
    exact ⟨_, rfl, rfl, rfl, .keep (by rw [hp]; rfl) (fun hw => by cases hw) rfl rfl rfl,
      .keep (by rw [hp]; rfl) (fun hb => by cases hb) rfl rfl rfl⟩
  next hp =>
    cases h
    unfold State.look
    split
    next =>
      refine ⟨_, rfl, rfl, rfl, .keep (by rw [hp]; rfl) (fun hw => by cases hw) rfl rfl rfl, ?_⟩
      rcases List.eq_nil_or_concat (s.idle co.key) with hidle | ⟨rest, client, hidle⟩
      · refine .miss hidle hp (by rw [hidle]; rfl) ?_ rfl rfl
        show Function.update s.idle co.key (s.idle co.key).dropLast = s.idle
        rw [hidle, List.dropLast_nil, ← hidle, Function.update_eq_self]
      · rw [List.concat_eq_append] at hidle
        refine .pop rest client hidle hp ?_ ?_ rfl rfl
        · rw [hidle, List.getLast?_concat]
        · show Function.update s.idle co.key (s.idle co.key).dropLast = _
          rw [hidle, List.dropLast_concat]
    next =>
      exact ⟨_, rfl, rfl, rfl, .quit (by rw [hp]; rfl) rfl rfl rfl rfl,
        .keep (by rw [hp]; rfl) (fun hb => by cases hb) rfl rfl rfl⟩
  next hp =>
    cases h
    exact ⟨_, rfl, rfl, rfl, .keep (by rw [hp]; rfl) (fun hw => by cases hw) rfl rfl rfl,
      .keep (by rw [hp]; rfl) (fun _ => by rw [hp]; rfl) rfl rfl rfl⟩
  next client hp =>
    split at h
    next =>
      cases h
      exact ⟨_, rfl, rfl, rfl, .keep (by rw [hp]; rfl) (fun hw => by cases hw) rfl rfl rfl,
        .retire client (by rw [hp]; rfl) rfl (fun _ => by rw [hp]; rfl) rfl rfl rfl⟩
    next =>
      cases h
      exact ⟨_, rfl, rfl, rfl, .keep (by rw [hp]; rfl) (fun hw => by cases hw) rfl rfl rfl,
        .keep (by rw [hp]; rfl) (fun _ => by rw [hp]; rfl) rfl rfl rfl⟩
  next hp =>
    cases h
    exact ⟨_, rfl, rfl, rfl, .keep (by rw [hp]; rfl) (fun hw => by cases hw) rfl rfl rfl,
      .fresh hp rfl rfl rfl rfl⟩
  next hp =>
    cases h
    exact ⟨_, rfl, rfl, rfl, .quit (by rw [hp]; rfl) rfl rfl rfl rfl,
      .keep (by rw [hp]; rfl) (fun hb => by cases hb) rfl rfl rfl⟩
  next hp =>
    cases h
    exact ⟨_, rfl, rfl, rfl, .quit (by rw [hp]; rfl) rfl rfl rfl rfl,
      .keep (by rw [hp]; rfl) (fun hb => by cases hb) rfl rfl rfl⟩
  next client reused reusable hp =>
    cases h
    exact ⟨_, rfl, rfl, rfl, .keep (by rw [hp]; rfl) (fun hw => by cases hw) rfl rfl rfl,
      .keep (by rw [hp]; rfl) (fun _ => by rw [hp]; rfl) rfl rfl rfl⟩
  next client reused reusable hp =>
    cases h
    exact ⟨_, rfl, rfl, rfl, .keep (by rw [hp]; rfl) (fun hw => by cases hw) rfl rfl rfl,
      .keep (by rw [hp]; rfl) (fun _ => by rw [hp]; rfl) rfl rfl rfl⟩
  next client reused reusable hp =>
    cases h
    unfold State.dropClient
    split
    next =>
      exact ⟨_, rfl, rfl, rfl, .keep (by rw [hp]; rfl) (fun hw => by cases hw) rfl rfl rfl,
        .retire client (by rw [hp]; rfl) rfl (fun hb => by cases hb) rfl rfl rfl⟩
    next =>
      split
      next hlength =>
        exact ⟨_, rfl, rfl, rfl, .keep (by rw [hp]; rfl) (fun hw => by cases hw) rfl rfl rfl,
          .file client (by rw [hp]; rfl) (by rw [hp]; rfl) rfl hlength rfl rfl rfl⟩
      next =>
        exact ⟨_, rfl, rfl, rfl, .keep (by rw [hp]; rfl) (fun hw => by cases hw) rfl rfl rfl,
          .retire client (by rw [hp]; rfl) rfl (fun hb => by cases hb) rfl rfl rfl⟩
  next hp =>
    cases h
    exact ⟨_, rfl, rfl, rfl, .quit (by rw [hp]; rfl) rfl rfl rfl rfl,
      .keep (by rw [hp]; rfl) (fun hb => by cases hb) rfl rfl rfl⟩
  next => cases h

/-! ## Permits -/

theorem countP_set {α : Type} {l : List α} {i : Nat} {a : α} (b : α) (p : α → Bool)
    (h : l[i]? = some a) :
    (l.set i b).countP p + (p a).toNat = l.countP p + (p b).toNat := by
  obtain ⟨hi, rfl⟩ := List.getElem?_eq_some_iff.1 h
  have hle := List.boole_getElem_le_countP (p := p) hi
  rw [List.countP_set hi]
  cases hold : p l[i] with
  | false => cases p b <;> simp
  | true =>
    rw [hold, if_pos rfl] at hle
    cases p b <;> simp only [if_true, Bool.toNat_true, Bool.toNat_false, Bool.false_eq_true,
      if_false] <;> omega

theorem permits_act {max : Nat} {s s' : State Key} {i : Nat} {co : Checkout Key} {action : Action}
    (hi : s.checkouts[i]? = some co) (hs : Permits max s) (h : act max s i co action = some s') :
    Permits max s' := by
  obtain ⟨co', hset, -, -, hpermitted, -⟩ := act_cases h
  have hcount : (s.checkouts.set i co').countP (·.phase.permit) + co.phase.permit.toNat =
      s.checkouts.countP (·.phase.permit) + co'.phase.permit.toNat := countP_set co' _ hi
  obtain ⟨hledger, hone, hwaiting⟩ := hs.once co (List.mem_of_getElem? hi)
  have htotal := hs.total
  have hpos : co.phase.permit.toNat ≤ s.permits := by
    cases hp : co.phase.permit with
    | false => exact Nat.zero_le _
    | true => exact List.countP_pos_iff.2 ⟨co, List.mem_of_getElem? hi, hp⟩
  unfold State.permits at htotal hpos
  have hother : ∀ co'' ∈ s'.checkouts, co'' ∈ s.checkouts ∨ co'' = co' := by
    rw [hset]
    exact fun co'' => List.mem_or_eq_of_mem_set
  have hall (hnew : co'.acquired = co'.released + co'.phase.permit.toNat ∧ co'.acquired ≤ 1 ∧
      (co'.phase = .waiting → co'.acquired = 0)) (ht : s'.available + s'.permits = max) :
      Permits max s' := by
    refine ⟨ht, fun co'' hco'' => ?_⟩
    rcases hother co'' hco'' with hold | rfl
    · exact hs.once co'' hold
    · exact hnew
  cases hpermitted with
  | acquire hold hnew havailable hav hac hre =>
    have hzero := hwaiting hold
    rw [hold] at hledger hcount
    rw [hnew] at hcount
    change _ = co.released + 0 at hledger
    change _ + 0 = _ + 1 at hcount
    refine hall ⟨?_, ?_, fun hw => ?_⟩ ?_
    · rw [hac, hre, hnew]
      show _ = co.released + 1
      omega
    · omega
    · rw [hnew] at hw
      cases hw
    · unfold State.permits
      rw [hset]
      omega
  | quit hold hnew hav hac hre =>
    rw [hold] at hledger hcount hpos
    rw [hnew] at hcount
    change _ + 1 = _ + 0 at hcount
    change 1 ≤ _ at hpos
    refine hall ⟨?_, ?_, fun hw => ?_⟩ ?_
    · rw [hac, hre, hnew, hledger]
      rfl
    · omega
    · rw [hnew] at hw
      cases hw
    · unfold State.permits
      rw [hset]
      omega
  | keep hsame hnew hav hac hre =>
    rw [hsame] at hcount
    refine hall ⟨?_, ?_, fun hw => absurd hw hnew⟩ ?_
    · rw [hac, hre, hsame]
      exact hledger
    · omega
    · unfold State.permits
      rw [hset]
      omega

/-! ## Bounds -/

theorem countP_busy_le_permits (s : State Key) (key : Key) : s.busy key ≤ s.permits := by
  refine List.countP_mono_left fun co _ hbusy => ?_
  rw [Bool.and_eq_true] at hbusy
  have := hbusy.2
  cases hp : co.phase <;> rw [hp] at this <;> first | rfl | cases this

theorem bounded_act {max : Nat} {s s' : State Key} {i : Nat} {co : Checkout Key} {action : Action}
    (hi : s.checkouts[i]? = some co) (hs : Bounded max s) (hpermits : Permits max s')
    (h : act max s i co action = some s') : Bounded max s' := by
  obtain ⟨co', hset, hkey, -, -, hmoved⟩ := act_cases h
  intro key
  have hcount := countP_set co' (fun co => decide (co.key = key) && co.phase.busy) hi
  rw [hkey, ← hset] at hcount
  have hold := hs key
  have hpermitted := countP_busy_le_permits s' key
  have htotal := hpermits.total
  unfold State.busy at hold hpermitted ⊢
  by_cases hk : co.key = key
  · -- the checkout is of this key
    subst hk
    simp only [decide_true, Bool.true_and] at hcount
    have hmono (hb : co'.phase.busy = true → co.phase.busy = true) :
        co'.phase.busy.toNat ≤ co.phase.busy.toNat := by
      cases hb' : co'.phase.busy with
      | false => exact Nat.zero_le _
      | true => rw [hb hb']
    cases hmoved with
    | keep _ hb hidle =>
      have := hmono hb
      rw [hidle]
      omega
    | miss hnil _ _ hidle =>
      rw [hidle, hnil, List.length_nil]
      omega
    | pop rest client hcons hold' hnew hidle =>
      rw [hidle, Function.update_self]
      rw [hcons, List.length_append, List.length_singleton] at hold
      have := Bool.toNat_le co'.phase.busy
      omega
    | retire client _ _ hb hidle =>
      have := hmono hb
      rw [hidle]
      omega
    | fresh hold' _ hidle =>
      rw [hold'] at hcount
      have := Bool.toNat_le co'.phase.busy
      change _ + 1 = _ at hcount
      rw [hidle]
      omega
    | file client _ hb hnew _ hidle =>
      rw [hidle, Function.update_self, List.length_append, List.length_singleton]
      rw [hb, hnew] at hcount
      change _ + 1 = _ + 0 at hcount
      omega
  · -- another key: neither its list nor its checkouts change
    have hidle : s'.idle key = s.idle key := by
      have hne : key ≠ co.key := fun he => hk he.symm
      cases hmoved with
      | keep _ _ hidle => rw [hidle]
      | miss _ _ _ hidle => rw [hidle]
      | pop rest client _ _ _ hidle => rw [hidle, Function.update_of_ne hne]
      | retire client _ _ _ hidle => rw [hidle]
      | fresh _ _ hidle => rw [hidle]
      | file client _ _ _ _ hidle => rw [hidle, Function.update_of_ne hne]
    simp only [hk, decide_false, Bool.false_and, Bool.toNat_false] at hcount
    rw [hidle]
    omega

/-! ## Places -/

omit [DecidableEq Key] in
theorem holds_set {s s' : State Key} {i : Nat} {co co' : Checkout Key}
    (hi : s.checkouts[i]? = some co) (hset : s'.checkouts = s.checkouts.set i co')
    (j client : Nat) : s'.Holds j client ↔
      j = i ∧ co'.phase.client = some client ∨ j ≠ i ∧ s.Holds j client := by
  have hlt : i < s.checkouts.length := (List.getElem?_eq_some_iff.1 hi).1
  unfold State.Holds
  rw [hset, List.getElem?_set]
  by_cases hj : i = j
  · subst hj
    simp [hlt]
  · have hj' : j ≠ i := fun he => hj he.symm
    simp [hj, hj']

omit [DecidableEq Key] in
theorem holds_self {s : State Key} {i : Nat} {co : Checkout Key}
    (hi : s.checkouts[i]? = some co) (client : Nat) :
    s.Holds i client ↔ co.phase.client = some client := by
  unfold State.Holds
  rw [hi]
  simp

omit [DecidableEq Key] in
theorem at_idle {s s' : State Key} (hidle : s'.idle = s.idle) {client : Nat} {key : Key}
    (h : s'.At client (.idle key)) : s.At client (.idle key) := by
  unfold State.At at h ⊢
  rwa [hidle] at h

omit [DecidableEq Key] in
theorem at_retired {s s' : State Key} (hretired : s'.retired = s.retired) {client : Nat}
    (h : s'.At client .retired) : s.At client .retired := by
  unfold State.At at h ⊢
  rwa [hretired] at h

omit [DecidableEq Key] in
/-- Whoever is elsewhere is another connection. -/
theorem Places.apart {s : State Key} (hs : Places s) {c client : Nat} {place p : Place Key}
    (hc : s.At c place) (hp : s.At client p) (hne : p ≠ place) :
    client ≠ c ∧ s.At client p := by
  refine ⟨?_, hp⟩
  rintro rfl
  exact hne (hs.once client p place hp hc)

theorem nodup_update {idle : Key → List Nat} {key : Key} {clients : List Nat}
    (h : ∀ k, (idle k).Nodup) (hclients : clients.Nodup) (k : Key) :
    (Function.update idle key clients k).Nodup := by
  by_cases hk : k = key
  · subst hk
    rw [Function.update_self]
    exact hclients
  · rw [Function.update_of_ne hk]
    exact h k

omit [DecidableEq Key] in
/-- At most one connection changed its place. -/
theorem Places.move {s s' : State Key} (hs : Places s) (c : Nat) (place : Place Key)
    (hat : ∀ client p, s'.At client p → client = c ∧ p = place ∨ client ≠ c ∧ s.At client p)
    (hnodup : ∀ key, (s'.idle key).Nodup) (hmade : s.made ≤ s'.made) (hc : c < s'.made) :
    Places s' := by
  refine ⟨fun client p p' hp hp' => ?_, hnodup, fun client p hp => ?_⟩
  · rcases hat client p hp with ⟨rfl, rfl⟩ | ⟨hne, hp⟩
    · rcases hat client p' hp' with ⟨-, rfl⟩ | ⟨hne, -⟩
      · rfl
      · exact absurd rfl hne
    · rcases hat client p' hp' with ⟨rfl, -⟩ | ⟨-, hp'⟩
      · exact absurd rfl hne
      · exact hs.once client p p' hp hp'
  · rcases hat client p hp with ⟨rfl, -⟩ | ⟨-, hp⟩
    · exact hc
    · exact Nat.lt_of_lt_of_le (hs.made client p hp) hmade

omit [DecidableEq Key] in
/-- Nothing moved. -/
theorem Places.keep {s s' : State Key} (hs : Places s) (hidle : s'.idle = s.idle)
    (hmade : s'.made = s.made) (hat : ∀ client p, s'.At client p → s.At client p) : Places s' :=
  ⟨fun client p p' hp hp' => hs.once client p p' (hat client p hp) (hat client p' hp'),
    hidle ▸ hs.nodup, fun client p hp => hmade ▸ hs.made client p (hat client p hp)⟩

/-- **A connection keeps to one place.** -/
theorem places_act {max : Nat} {s s' : State Key} {i : Nat} {co : Checkout Key} {action : Action}
    (hi : s.checkouts[i]? = some co) (hs : Places s) (h : act max s i co action = some s') :
    Places s' := by
  obtain ⟨co', hset, -, -, -, hmoved⟩ := act_cases h
  have hholds := holds_set hi hset
  have hself := holds_self hi
  cases hmoved with
  | keep hclient _ hidle hretired hmade =>
    refine hs.keep hidle hmade fun client p hp => ?_
    cases p with
    | idle key => exact at_idle hidle hp
    | held j =>
      rcases (hholds j client).1 hp with ⟨rfl, hc⟩ | ⟨-, hc⟩
      · exact (hself client).2 (hclient ▸ hc)
      · exact hc
    | retired => exact at_retired hretired hp
  | miss _ _ hnew hidle hretired hmade =>
    refine hs.keep hidle hmade fun client p hp => ?_
    cases p with
    | idle key => exact at_idle hidle hp
    | held j =>
      rcases (hholds j client).1 hp with ⟨rfl, hc⟩ | ⟨-, hc⟩
      · rw [hnew] at hc
        cases hc
      · exact hc
    | retired => exact at_retired hretired hp
  | pop rest c hcons hold hnew hidle hretired hmade =>
    have hmem : s.At c (.idle co.key) := by
      show c ∈ s.idle co.key
      rw [hcons]
      exact List.mem_append_right rest List.mem_cons_self
    have hnodup := hs.nodup co.key
    rw [hcons, List.nodup_append] at hnodup
    refine hs.move c (.held i) (fun client p hp => ?_) (hidle ▸ nodup_update hs.nodup hnodup.1)
      (Nat.le_of_eq hmade.symm) (hmade ▸ hs.made c _ hmem)
    cases p with
    | idle key =>
      refine .inr ?_
      change client ∈ s'.idle key at hp
      rw [hidle] at hp
      by_cases hk : key = co.key
      · subst hk
        rw [Function.update_self] at hp
        refine ⟨hnodup.2.2 client hp c List.mem_cons_self, ?_⟩
        show client ∈ s.idle co.key
        rw [hcons]
        exact List.mem_append_left _ hp
      · rw [Function.update_of_ne hk] at hp
        exact hs.apart hmem hp fun he => hk (Place.idle.inj he)
    | held j =>
      rcases (hholds j client).1 hp with ⟨rfl, hc⟩ | ⟨-, hc⟩
      · rw [hnew] at hc
        exact .inl ⟨(Option.some.inj hc).symm, rfl⟩
      · exact .inr (hs.apart hmem hc nofun)
    | retired => exact .inr (hs.apart hmem (at_retired hretired hp) nofun)
  | retire c hold hnew _ hidle hretired hmade =>
    have hheld : s.At c (.held i) := (hself c).2 hold
    refine hs.move c .retired (fun client p hp => ?_) (hidle ▸ hs.nodup)
      (Nat.le_of_eq hmade.symm) (hmade ▸ hs.made c _ hheld)
    cases p with
    | idle key => exact .inr (hs.apart hheld (at_idle hidle hp) nofun)
    | held j =>
      rcases (hholds j client).1 hp with ⟨rfl, hc⟩ | ⟨hne, hc⟩
      · rw [hnew] at hc
        cases hc
      · exact .inr (hs.apart hheld hc fun he => hne (Place.held.inj he))
    | retired =>
      change client ∈ s'.retired at hp
      rw [hretired, List.mem_cons] at hp
      by_cases hcl : client = c
      · exact .inl ⟨hcl, rfl⟩
      · exact .inr ⟨hcl, hp.resolve_left hcl⟩
  | fresh hold hnew hidle hretired hmade =>
    refine hs.move s.made (.held i) (fun client p hp => ?_) (hidle ▸ hs.nodup)
      (hmade ▸ Nat.le_succ _) (hmade ▸ Nat.lt_succ_self _)
    have hbelow (p : Place Key) (hp : s.At client p) : client ≠ s.made ∧ s.At client p :=
      ⟨Nat.ne_of_lt (hs.made client p hp), hp⟩
    cases p with
    | idle key => exact .inr (hbelow (.idle key) (at_idle hidle hp))
    | held j =>
      rcases (hholds j client).1 hp with ⟨rfl, hc⟩ | ⟨-, hc⟩
      · rw [hnew] at hc
        exact .inl ⟨(Option.some.inj hc).symm, rfl⟩
      · exact .inr (hbelow (.held j) hc)
    | retired => exact .inr (hbelow .retired (at_retired hretired hp))
  | file c hold _ hnew _ hidle hretired hmade =>
    have hheld : s.At c (.held i) := (hself c).2 hold
    have hfiled : (s.idle co.key ++ [c]).Nodup := by
      rw [List.nodup_append]
      refine ⟨hs.nodup co.key, List.nodup_singleton c, ?_⟩
      rintro client hcl _ hmem rfl
      rw [List.mem_singleton] at hmem
      exact (hs.apart (p := .idle co.key) hheld hcl nofun).1 hmem
    refine hs.move c (.idle co.key) (fun client p hp => ?_) (hidle ▸ nodup_update hs.nodup hfiled)
      (Nat.le_of_eq hmade.symm) (hmade ▸ hs.made c _ hheld)
    cases p with
    | idle key =>
      change client ∈ s'.idle key at hp
      rw [hidle] at hp
      by_cases hk : key = co.key
      · subst hk
        rw [Function.update_self, List.mem_append, List.mem_singleton] at hp
        exact hp.elim (fun hp => .inr (hs.apart hheld hp nofun)) fun he => .inl ⟨he, rfl⟩
      · rw [Function.update_of_ne hk] at hp
        exact .inr (hs.apart hheld hp nofun)
    | held j =>
      rcases (hholds j client).1 hp with ⟨rfl, hc⟩ | ⟨hne, hc⟩
      · rw [hnew] at hc
        cases hc
      · exact .inr (hs.apart hheld hc fun he => hne (Place.held.inj he))
    | retired => exact .inr (hs.apart hheld (at_retired hretired hp) nofun)

/-! ## Runs -/

/-- What every reachable state keeps. -/
structure Orderly (max : Nat) (s : State Key) : Prop where
  permits : Permits max s
  places : Places s
  bounded : Bounded max s

theorem initial_orderly (max : Nat) : Orderly max (initial max : State Key) := by
  refine ⟨⟨rfl, fun co hco => (by cases hco)⟩, ⟨?_, fun _ => List.nodup_nil, ?_⟩,
    fun _ => Nat.zero_le max⟩
  · intro client p p' hp
    cases p with
    | idle key => cases hp
    | held i =>
      obtain ⟨co, hco, -⟩ := hp
      cases hco
    | retired => cases hp
  · intro client p hp
    cases p with
    | idle key => cases hp
    | held i =>
      obtain ⟨co, hco, -⟩ := hp
      cases hco
    | retired => cases hp

theorem step_orderly {max : Nat} {s s' : State Key} {event : Event Key} (hs : Orderly max s)
    (h : step max s event = some s') : Orderly max s' := by
  cases event with
  | checkout key validSession timeout =>
    have hnew : ∀ phase : Phase, phase.permit = false → phase.busy = false → phase.client = none →
        Orderly max { s with checkouts := s.checkouts ++ [⟨key, validSession, phase, 0, 0⟩] } := by
      intro phase hpermit hbusy hclient
      refine ⟨⟨?_, ?_⟩, hs.places.keep rfl rfl fun client p hp => ?_, fun key' => ?_⟩
      · have htotal := hs.permits.total
        unfold State.permits at htotal ⊢
        rwa [List.countP_append, List.countP_singleton, hpermit, if_neg Bool.false_ne_true]
      · intro co hco
        rcases List.mem_append.1 hco with hco | hco
        · exact hs.permits.once co hco
        · rw [List.mem_singleton.1 hco, hpermit]
          exact ⟨rfl, Nat.zero_le 1, fun _ => rfl⟩
      · cases p with
        | idle key => exact hp
        | held j =>
          obtain ⟨co, hco, hc⟩ := hp
          rw [Option.mem_def, List.getElem?_append] at hco
          split at hco
          next => exact ⟨co, hco, hc⟩
          next =>
            have hmem := List.mem_of_getElem? hco
            rw [List.mem_singleton.1 hmem, hclient] at hc
            cases hc
        | retired => exact hp
      · have hbound := hs.bounded key'
        unfold State.busy at hbound ⊢
        rw [List.countP_append, List.countP_singleton, hbusy, Bool.and_false,
          if_neg Bool.false_ne_true]
        exact hbound
    rw [step, Option.some.injEq] at h
    subst h
    split
    · exact hnew .over rfl rfl rfl
    · exact hnew .waiting rfl rfl rfl
  | act i action =>
    rw [step] at h
    split at h
    next co hi =>
      have hpermits := permits_act hi hs.permits h
      exact ⟨hpermits, places_act hi hs.places h, bounded_act hi hs.bounded hpermits h⟩
    next => cases h
  | close client =>
    cases h
    exact ⟨⟨hs.permits.total, hs.permits.once⟩, hs.places.keep rfl rfl fun _ p hp => by
      cases p <;> exact hp, hs.bounded⟩

/-- **Every reachable state of the pool is orderly.** -/
theorem run_orderly {max : Nat} {events : List (Event Key)} :
    ∀ {s s' : State Key}, Orderly max s → run max s events = some s' → Orderly max s' := by
  induction events with
  | nil =>
    intro s s' hs h
    cases h
    exact hs
  | cons event events ih =>
    intro s s' hs h
    obtain ⟨s₁, h₁, h₂⟩ := Option.bind_eq_some_iff.1 h
    exact ih (step_orderly hs h₁) h₂

/-! ## Top theorem -/

/-- The clients checked out, over all keys. -/
def State.checkedOut (s : State Key) : Nat :=
  s.checkouts.countP (·.phase.client.isSome)

theorem Orderly.connections_le {max : Nat} {s : State Key} (hs : Orderly max s) (key : Key) :
    s.connections key ≤ max := by
  refine Nat.le_trans (Nat.add_le_add_left ?_ _) (hs.bounded key)
  refine List.countP_mono_left fun co _ hco => ?_
  rw [Bool.and_eq_true] at hco ⊢
  refine ⟨hco.1, ?_⟩
  have := hco.2
  cases hp : co.phase <;> rw [hp] at this <;> first | rfl | cases this

omit [DecidableEq Key] in
theorem Permits.checkedOut_le {max : Nat} {s : State Key} (hs : Permits max s) :
    s.checkedOut ≤ max := by
  have hle : s.checkedOut ≤ s.permits := by
    refine List.countP_mono_left fun co _ hco => ?_
    cases hp : co.phase <;> rw [hp] at hco <;> first | rfl | cases hco
  have := hs.total
  omega

/-- The next step hands out an idle client: its checkout becomes a `PooledClient`. -/
structure HandsOut (max : Nat) (s s' : State Key) (i client : Nat) : Prop where
  step : step max s (.act i .inspect) = some s'
  pooled : ∃ co ∈ s'.checkouts[i]?, co.phase = .pooled client true true

/-- A client that is handed out was popped, and its connection found open. -/
theorem HandsOut.popped {max : Nat} {s s' : State Key} {i client : Nat}
    (h : HandsOut max s s' i client) :
    (∃ co ∈ s.checkouts[i]?, co.phase = .popped (some client)) ∧ client ∉ s.closed := by
  obtain ⟨hstep, co', hco', hphase⟩ := h
  cases hi : s.checkouts[i]? with
  | none =>
    simp only [Pool.step, hi] at hstep
    cases hstep
  | some co =>
    have hlt : i < s.checkouts.length := (List.getElem?_eq_some_iff.1 hi).1
    have hnew (t : State Key) (phase : Phase) (ht : t.checkouts = s.checkouts)
        (hs' : s' = t.goto i co phase) : phase = .pooled client true true := by
      subst hs'
      unfold State.goto State.set at hco'
      rw [ht, List.getElem?_set_self hlt, Option.mem_some_iff] at hco'
      rw [← hphase, ← hco']
    simp only [Pool.step, hi] at hstep
    cases hp : co.phase with
    | popped popped =>
      cases popped with
      | none =>
        simp only [act, hp, Option.some.injEq] at hstep
        cases hnew s .connecting rfl hstep.symm
      | some c =>
        simp only [act, hp] at hstep
        split at hstep
        next =>
          cases hnew { s with retired := c :: s.retired } .connecting rfl
            (Option.some.inj hstep).symm
        next hopen =>
          cases hnew s (.pooled c true true) rfl (Option.some.inj hstep).symm
          exact ⟨⟨co, rfl, hp⟩, hopen⟩
    | _ =>
      simp only [act, hp] at hstep
      cases hstep

/-! ### Invalidated clients -/

theorem run_append {max : Nat} {s s' : State Key} {events more : List (Event Key)}
    (h : run max s (events ++ more) = some s') :
    ∃ s₁, run max s events = some s₁ ∧ run max s₁ more = some s' := by
  induction events generalizing s with
  | nil => exact ⟨s, rfl, h⟩
  | cons event events ih =>
    obtain ⟨s₁, hstep, hrest⟩ := Option.bind_eq_some_iff.1 h
    obtain ⟨s₂, hevents, hmore⟩ := ih hrest
    exact ⟨s₂, by rw [run, hstep]; exact hevents, hmore⟩

/-- A call of `invalidate` on the `PooledClient` that holds the client, with no call of
`mark_reusable` after it. -/
def Invalidated (max : Nat) (events : List (Event Key)) (client : Nat) : Prop :=
  ∃ before i after s, events = before ++ .act i .invalidate :: after ∧
    run max (initial max) before = some s ∧ s.Holds i client ∧ .act i .markReusable ∉ after

/-- The client is with checkout `i`, which will not file it, or the pool let it go. -/
def State.Lost (s : State Key) (i client : Nat) : Prop :=
  (∃ co ∈ s.checkouts[i]?, ∃ reused, co.phase = .pooled client reused false) ∨ client ∈ s.retired

theorem Moved.retired_subset {max : Nat} {s s' : State Key} {key : Key} {old new : Phase}
    (h : Moved max s s' key old new) : s.retired ⊆ s'.retired := by
  cases h with
  | keep _ _ _ hretired _ | miss _ _ _ _ hretired _ | pop _ _ _ _ _ _ hretired _
  | fresh _ _ _ hretired _ | file _ _ _ _ _ _ hretired _ =>
    rw [hretired]
    exact List.Subset.refl _
  | retire client _ _ _ _ hretired _ =>
    rw [hretired]
    exact List.subset_cons_self ..

/-- An invalidated client is dropped without being filed. -/
theorem lost_act {max : Nat} {s s' : State Key} {i client : Nat} {co : Checkout Key} {reused : Bool}
    {action : Action} (hi : s.checkouts[i]? = some co) (hp : co.phase = .pooled client reused false)
    (haction : action ≠ .markReusable) (h : act max s i co action = some s') : s'.Lost i client := by
  have hlt : i < s.checkouts.length := (List.getElem?_eq_some_iff.1 hi).1
  cases action with
  | invalidate =>
    simp only [act, hp, Option.some.injEq] at h
    subst h
    refine .inl ⟨{ co with phase := .pooled client reused false }, ?_, reused, rfl⟩
    exact List.getElem?_set_self hlt
  | markReusable => exact absurd rfl haction
  | drop =>
    simp only [act, hp, Option.some.injEq] at h
    subst h
    unfold State.dropClient
    rw [if_pos (.inl Bool.false_ne_true)]
    exact .inr List.mem_cons_self
  | acquire | timeout | abandon | look | inspect | release =>
    simp only [act, hp] at h
    cases h
  | connect ok =>
    cases ok <;> simp only [act, hp] at h <;> cases h

theorem lost_step {max : Nat} {s s' : State Key} {event : Event Key} {i client : Nat}
    (hs : s.Lost i client) (hevent : event ≠ .act i .markReusable)
    (h : step max s event = some s') : s'.Lost i client := by
  cases event with
  | checkout key validSession timeout =>
    cases h
    refine hs.imp (fun hheld => ?_) id
    obtain ⟨co, hco, hp⟩ := hheld
    refine ⟨co, ?_, hp⟩
    have hlt := (List.getElem?_eq_some_iff.1 hco).1
    exact (List.getElem?_append_left hlt).trans hco
  | close closed =>
    cases h
    exact hs
  | act j action =>
    rw [step] at h
    split at h
    next co' hj =>
      obtain ⟨co'', hcheckouts, -, -, -, hmoved⟩ := act_cases h
      rcases hs with ⟨co, hco, reused, hp⟩ | hretired
      · by_cases hij : j = i
        · subst hij
          have hsame : co' = co := Option.some.inj (hj.symm.trans hco)
          subst hsame
          exact lost_act hj hp (fun ha => hevent (by rw [ha])) h
        · refine .inl ⟨co, ?_, reused, hp⟩
          rw [hcheckouts, List.getElem?_set_ne hij]
          exact hco
      · exact .inr (hmoved.retired_subset hretired)
    next => cases h

theorem lost_run {max : Nat} {events : List (Event Key)} {i client : Nat} :
    ∀ {s s' : State Key}, s.Lost i client → .act i .markReusable ∉ events →
      run max s events = some s' → s'.Lost i client := by
  induction events with
  | nil =>
    intro s s' hs _ h
    cases h
    exact hs
  | cons event events ih =>
    intro s s' hs hmark h
    obtain ⟨s₁, h₁, h₂⟩ := Option.bind_eq_some_iff.1 h
    rw [List.mem_cons, not_or] at hmark
    exact ih (lost_step hs (fun he => hmark.1 he.symm) h₁) hmark.2 h₂

theorem Invalidated.lost {max : Nat} {events : List (Event Key)} {s : State Key} {client : Nat}
    (hi : Invalidated max events client) (h : run max (initial max) events = some s) :
    ∃ i, s.Lost i client := by
  obtain ⟨before, i, after, s₀, rfl, hbefore, hheld, hmark⟩ := hi
  obtain ⟨s₁, h₁, hafter⟩ := run_append h
  rw [hbefore] at h₁
  cases h₁
  obtain ⟨s₂, hstep, hrest⟩ := Option.bind_eq_some_iff.1 hafter
  refine ⟨i, lost_run ?_ hmark hrest⟩
  obtain ⟨co, hco, hclient⟩ := hheld
  have hlt := (List.getElem?_eq_some_iff.1 hco).1
  rw [step, hco] at hstep
  cases hp : co.phase with
  | pooled client' reused reusable =>
    simp only [act, hp, Option.some.injEq] at hstep
    subst hstep
    rw [hp] at hclient
    cases hclient
    exact .inl ⟨{ co with phase := .pooled client reused false }, List.getElem?_set_self hlt,
      reused, rfl⟩
  | _ =>
    simp only [act, hp] at hstep
    cases hstep

/-- A closed connection stays closed. -/
theorem closed_run {max : Nat} {events : List (Event Key)} {client : Nat} :
    ∀ {s s' : State Key}, client ∈ s.closed ∨ .close client ∈ events →
      run max s events = some s' → client ∈ s'.closed := by
  induction events with
  | nil =>
    intro s s' hs h
    cases h
    exact hs.resolve_right List.not_mem_nil
  | cons event events ih =>
    intro s s' hs h
    obtain ⟨s₁, h₁, h₂⟩ := Option.bind_eq_some_iff.1 h
    refine ih ?_ h₂
    rw [List.mem_cons, ← or_assoc] at hs
    refine hs.imp_left fun hs => ?_
    cases event with
    | checkout key validSession timeout =>
      cases h₁
      exact hs.resolve_right nofun
    | close other =>
      cases h₁
      rcases hs with hs | heq
      · exact List.mem_cons_of_mem _ hs
      · cases heq
        exact List.mem_cons_self
    | act j action =>
      rw [step] at h₁
      split at h₁
      next co hj =>
        obtain ⟨-, -, -, hclosed, -⟩ := act_cases h₁
        rw [hclosed]
        exact hs.resolve_right nofun
      next => cases h₁

/-- **The pool.** After every run: a connection is held by one `PooledClient` at most; a client
that is handed out next was not invalidated and left so, and its connection was not closed;
a checkout has given its permit back once or still has it, and at most `max` of them have one;
at most `max` clients are checked out, and each key has at most `max` connections. -/
theorem run_pool (max : Nat) (events : List (Event Key)) (s : State Key)
    (h : run max (initial max) events = some s) :
    (∀ i j client, s.Holds i client → s.Holds j client → i = j) ∧
      (∀ s' i client, HandsOut max s s' i client →
        ¬ Invalidated max events client ∧ .close client ∉ events) ∧
      (∀ co ∈ s.checkouts, co.acquired = co.released + co.phase.permit.toNat ∧ co.acquired ≤ 1) ∧
      s.available + s.permits = max ∧ s.checkedOut ≤ max ∧ ∀ key, s.connections key ≤ max := by
  have hs := run_orderly (initial_orderly max) h
  refine ⟨fun i j client hi hj => ?_, fun s' i client hout => ?_, fun co hco => ?_,
    hs.permits.total, hs.permits.checkedOut_le, hs.connections_le⟩
  · cases hs.places.once client (.held i) (.held j) hi hj
    rfl
  · obtain ⟨⟨co, hco, hp⟩, hopen⟩ := hout.popped
    have hheld : s.Holds i client := ⟨co, hco, by rw [hp]; rfl⟩
    refine ⟨fun hinvalid => ?_, fun hclose => hopen (closed_run (.inr hclose) h)⟩
    obtain ⟨j, ⟨co', hco', reused, hp'⟩ | hretired⟩ := hinvalid.lost h
    · have hheld' : s.Holds j client := ⟨co', hco', by rw [hp']; rfl⟩
      cases hs.places.once client (.held i) (.held j) hheld hheld'
      rw [Option.mem_unique hco hco', hp'] at hp
      cases hp
    · cases hs.places.once client .retired (.held i) hretired hheld
  · obtain ⟨hledger, hone, -⟩ := hs.permits.once co hco
    exact ⟨hledger, hone⟩

end Source

/-- A pool of one connection: a checkout that is dropped, then one under another key. -/
def twoKeys : List (Event Nat) :=
  [.checkout 0 true 1, .act 0 .acquire, .act 0 .look, .act 0 .inspect, .act 0 (.connect true),
    .act 0 .drop, .act 0 .release,
    .checkout 1 true 1, .act 1 .acquire, .act 1 .look, .act 1 .inspect, .act 1 (.connect true)]

/-- A client that its write invalidated before it ran, and marked reusable once committed. -/
def remarked : List (Event Nat) :=
  [.checkout 0 true 1, .act 0 .acquire, .act 0 .look, .act 0 .inspect, .act 0 (.connect true),
    .act 0 .invalidate, .act 0 .markReusable, .act 0 .drop, .act 0 .release,
    .checkout 0 true 1, .act 1 .acquire, .act 1 .look]

theorem twoKeys_pool :
    (∃ s, run 1 (initial 1) twoKeys = some s ∧ s.checkedOut ≤ 1 ∧
      ∀ key, s.connections key ≤ 1) ∧ ¬ Invalidated 1 remarked 0 ∧ .close 0 ∉ remarked :=
  ⟨⟨_, rfl, (run_pool 1 twoKeys _ rfl).2.2.2.2⟩,
    (run_pool 1 remarked _ rfl).2.1 _ 1 0 ⟨rfl, _, rfl, rfl⟩⟩

/-- The idle connection of the first key is still open when the second key opens its own, and
a client that was invalidated is handed out when it was marked reusable since. -/
theorem twoKeys_connections :
    (∃ s, run 1 (initial 1) twoKeys = some s ∧ s.closed = [] ∧
      ¬ ∑ key ∈ {0, 1}, s.connections key ≤ 1) ∧
      ∃ s s', run 1 (initial 1) remarked = some s ∧ .act 0 .invalidate ∈ remarked ∧
        HandsOut 1 s s' 1 0 :=
  ⟨⟨_, rfl, rfl, by decide⟩, _, _, rfl, by simp [remarked], rfl, _, rfl, rfl⟩

end Plenora.Postgres.Pool
