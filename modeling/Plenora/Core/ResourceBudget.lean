import Plenora.Core.Error
import Plenora.Lib.CompareExchange

/-!
# The resource budget

The counters that the handles of one `ResourceBudget` share, and the leases drawn on
them.  Acquiring and giving back are compare-and-retry loops; `commit`, `release` and
`drop` consume the lease, and `drop` also runs at the end of the other two.  Whatever
the order of the steps of any number of holders:

    run limits (initial limits) events = some s → Conserved limits s         (run_conserved)
-/

namespace Plenora.Core.Resource

open Lib.CompareExchange

/-! ## The source -/

inductive ResourceKind where
  | memoryBytes | rows | columns | geometryComponents | concurrentOperations | outputBytes
  | spillBytes
  deriving DecidableEq, Repr

/-- The limits that have a counter. -/
structure ResourceLimits where
  memoryBytes : UInt64
  rows : UInt64
  columns : UInt64
  geometryComponents : UInt64
  concurrentOperations : UInt64
  outputBytes : UInt64
  spillBytes : UInt64

def maximumFor (limits : ResourceLimits) : ResourceKind → UInt64
  | .memoryBytes => limits.memoryBytes
  | .rows => limits.rows
  | .columns => limits.columns
  | .geometryComponents => limits.geometryComponents
  | .concurrentOperations => limits.concurrentOperations
  | .outputBytes => limits.outputBytes
  | .spillBytes => limits.spillBytes

/-- `Counters`, read by `get`. -/
abbrev Counters := ResourceKind → UInt64

def Counters.new (limits : ResourceLimits) : Counters := maximumFor limits

def checkedSub (a b : UInt64) : Option UInt64 := if b ≤ a then some (a - b) else none

def checkedAdd (a b : UInt64) : Option UInt64 :=
  if a.toNat + b.toNat < 2 ^ 64 then some (a + b) else none

/-- What `try_lease` writes over the value it saw. -/
def leased (amount current : UInt64) : Result UInt64 :=
  match checkedSub current amount with
  | none => .error (.resourceLimit "budget di risorsa esaurito")
  | some next => .ok next

/-- What `ResourceBudget::release` writes over the value it saw. -/
def restored (maximum amount current : UInt64) : Result UInt64 :=
  match checkedAdd current amount with
  | none => .error (.resourceLimit "overflow durante la restituzione del budget")
  | some next =>
    if maximum < next then
      .error (.resourceLimit "restituzione superiore alla quota originaria")
    else .ok next

/-- The calls that consume a lease. -/
inductive Ending where
  | commit (used : UInt64)
  | release
  | drop
  deriving DecidableEq

/-- Where a lease stands: some holder owns it, a call of a thread consumed it and is not over,
or the call is over and turned an amount into consumption. -/
inductive Fate where
  | held
  | ending (thread : Nat)
  | ended (committed : UInt64)
  deriving DecidableEq

structure ResourceLease where
  kind : ResourceKind
  amount : UInt64
  released : Bool
  fate : Fate

/-- A run of the loop of `ResourceBudget::release`: the lease it is for, the share that goes back
and the call that consumed the lease; inside `drop`, the answer that call leaves with. -/
structure Giving where
  lease : Nat
  share : UInt64
  ending : Ending
  dropping : Option (Result Unit)

/-- A thread between two steps: the loop it is in, and the value the loop last saw. -/
inductive Thread where
  | idle
  | leasing (kind : ResourceKind) (amount : UInt64) (observed : Option UInt64)
  | giving (giving : Giving) (observed : Option UInt64)

inductive Answer where
  | tryLease (kind : ResourceKind) (amount : UInt64) (result : Result Nat)
  | ended (lease : Nat) (ending : Ending) (result : Result Unit)

/-- The counters, the leases ever handed out, the threads, and what the loops of
`ResourceBudget::release` and the calls answered. -/
structure State where
  counters : Counters
  leases : List ResourceLease
  threads : Nat → Thread
  givings : List (Giving × Result Unit)
  answers : List Answer

def initial (limits : ResourceLimits) : State :=
  { counters := .new limits, leases := [], threads := fun _ => .idle, givings := [], answers := [] }

def State.goto (s : State) (i : Nat) (thread : Thread) : State :=
  { s with threads := Function.update s.threads i thread }

def State.answer (s : State) (answer : Answer) : State :=
  { s with answers := s.answers ++ [answer] }

def zeroLease : DatabaseError := .resourceLimit "una lease di risorsa deve essere maggiore di zero"

def invalidUse : DatabaseError := .resourceLimit "consumo non valido per la lease di risorsa"

/-- The part of a lease that a call turned into consumption. -/
def committedBy : Ending → Result Unit → UInt64
  | .commit used, .ok () => used
  | _, _ => 0

/-- A call that consumed a lease returns. -/
def State.finish (s : State) (i id : Nat) (lease : ResourceLease) (ending : Ending)
    (result : Result Unit) : State :=
  { s with
    leases := s.leases.set id { lease with fate := .ended (committedBy ending result) }
    threads := Function.update s.threads i .idle
    answers := s.answers ++ [.ended id ending result] }

/-- `Drop::drop`, where a call that consumed the lease leaves with an answer. -/
def State.dropLease (s : State) (i id : Nat) (lease : ResourceLease) (ending : Ending)
    (result : Result Unit) : State :=
  if lease.released then s.finish i id lease ending result
  else
    { s with
      leases := s.leases.set id { lease with fate := .ending i }
      threads := Function.update s.threads i
        (.giving ⟨id, lease.amount, ending, some result⟩ none) }

/-- `commit` and `release` as far as the loop of `ResourceBudget::release`. -/
def State.consume (s : State) (i id : Nat) (lease : ResourceLease) : Ending → State
  | .commit used =>
    if used = 0 ∨ lease.amount < used then
      s.dropLease i id lease (.commit used) (.error invalidUse)
    else if 0 < lease.amount - used then
      { s with
        leases := s.leases.set id { lease with fate := .ending i }
        threads := Function.update s.threads i
          (.giving ⟨id, lease.amount - used, .commit used, none⟩ none) }
    else s.dropLease i id { lease with released := true } (.commit used) (.ok ())
  | .release =>
    { s with
      leases := s.leases.set id { lease with fate := .ending i }
      threads := Function.update s.threads i (.giving ⟨id, lease.amount, .release, none⟩ none) }
  | .drop => s.dropLease i id lease .drop (.ok ())

/-- The loop of `ResourceBudget::release` is over. -/
def State.given (s : State) (i : Nat) (lease : ResourceLease) (g : Giving) :
    Result Unit → State
  | .ok () =>
    match g.dropping with
    | none => s.dropLease i g.lease { lease with released := true } g.ending (.ok ())
    | some result => s.finish i g.lease { lease with released := true } g.ending result
  | .error e =>
    match g.dropping with
    | none => s.dropLease i g.lease lease g.ending (.error e)
    | some result => s.finish i g.lease lease g.ending result

/-- The loop of `try_lease` is over. -/
def State.acquired (s : State) (i : Nat) (kind : ResourceKind) (amount : UInt64) :
    Result Unit → State
  | .ok () =>
    { s with
      leases := s.leases ++ [⟨kind, amount, false, .held⟩]
      threads := Function.update s.threads i .idle
      answers := s.answers ++ [.tryLease kind amount (.ok s.leases.length)] }
  | .error e => (s.goto i .idle).answer (.tryLease kind amount (.error e))

/-- An idle thread makes a call, or a thread in a loop takes its next step. -/
inductive Event where
  | tryLease (thread : Nat) (kind : ResourceKind) (amount : UInt64)
  | consume (thread lease : Nat) (ending : Ending)
  | turn (thread : Nat) (spurious : Bool)

/-- A lease is a value with one owner: only a held one can be consumed. -/
def step (limits : ResourceLimits) (s : State) : Event → Option State
  | .tryLease i kind amount =>
    match s.threads i with
    | .idle =>
      if amount = 0 then some (s.answer (.tryLease kind amount (.error zeroLease)))
      else some (s.goto i (.leasing kind amount none))
    | _ => none
  | .consume i id ending =>
    match s.threads i, s.leases[id]? with
    | .idle, some lease => if lease.fate = .held then some (s.consume i id lease ending) else none
    | _, _ => none
  | .turn i spurious =>
    match s.threads i with
    | .idle => none
    | .leasing kind amount observed =>
      let r := turn (leased amount) (s.counters kind) observed spurious
      let s' := { s with counters := Function.update s.counters kind r.1 }
      match r.2 with
      | .attempting seen => some (s'.goto i (.leasing kind amount (some seen)))
      | .returned result => some (s'.acquired i kind amount result)
    | .giving g observed =>
      match s.leases[g.lease]? with
      | none => none
      | some lease =>
        let r := turn (restored (maximumFor limits lease.kind) g.share) (s.counters lease.kind)
          observed spurious
        let s' := { s with counters := Function.update s.counters lease.kind r.1 }
        match r.2 with
        | .attempting seen => some (s'.goto i (.giving g (some seen)))
        | .returned result =>
          some ({ s' with givings := s.givings ++ [(g, result)] }.given i lease g result)

def run (limits : ResourceLimits) (s : State) : List Event → Option State
  | [] => some s
  | event :: events => (step limits s event).bind (run limits · events)

/-! ## Checked arithmetic -/

theorem checkedSub_eq_some {a b c : UInt64} (h : checkedSub a b = some c) :
    c.toNat + b.toNat = a.toNat := by
  unfold checkedSub at h
  split at h
  next hle =>
    cases h
    rw [UInt64.toNat_sub_of_le _ _ hle]
    exact Nat.sub_add_cancel hle
  next => contradiction

theorem checkedAdd_eq_some {a b c : UInt64} (h : checkedAdd a b = some c) :
    c.toNat = a.toNat + b.toNat := by
  unfold checkedAdd at h
  split at h
  next hlt =>
    cases h
    rw [UInt64.toNat_add, Nat.mod_eq_of_lt hlt]
  next => contradiction

theorem leased_spec {amount current next : UInt64} (h : leased amount current = .ok next) :
    next.toNat + amount.toNat = current.toNat := by
  unfold leased at h
  split at h
  next => contradiction
  next next' hsub =>
    cases h
    exact checkedSub_eq_some hsub

/-- Giving back fails on no share that was taken out of the maximum. -/
theorem restored_spec {maximum amount current : UInt64}
    (h : current.toNat + amount.toNat ≤ maximum.toNat) :
    ∃ next, restored maximum amount current = .ok next ∧
      next.toNat = current.toNat + amount.toNat := by
  have hword : current.toNat + amount.toNat < 2 ^ 64 := h.trans_lt maximum.toNat_lt
  have hadd : checkedAdd current amount = some (current + amount) := if_pos hword
  have hnext := checkedAdd_eq_some hadd
  have hle : ¬ maximum < current + amount := by
    rw [UInt64.lt_iff_toNat_lt, hnext]
    omega
  refine ⟨current + amount, ?_, hnext⟩
  unfold restored
  rw [hadd]
  exact if_neg hle

/-! ## What the leases hold -/

/-- What is taken out of the counter for a lease. -/
def ResourceLease.taken (lease : ResourceLease) : Nat :=
  match lease.fate with
  | .held => lease.amount.toNat
  | .ending _ => lease.amount.toNat
  | .ended committed => committed.toNat

/-- What a live lease holds. -/
def ResourceLease.live (lease : ResourceLease) : Nat :=
  match lease.fate with
  | .held => lease.amount.toNat
  | _ => 0

/-- What a lease turned into consumption. -/
def ResourceLease.committed (lease : ResourceLease) : Nat :=
  match lease.fate with
  | .ended committed => committed.toNat
  | _ => 0

/-- The total over the leases of a kind. -/
def total (part : ResourceLease → Nat) (leases : List ResourceLease) (kind : ResourceKind) : Nat :=
  (leases.map fun lease => if lease.kind = kind then part lease else 0).sum

theorem sum_map_set {α : Type} (f : α → Nat) {l : List α} {n : Nat} {a : α} (h : l[n]? = some a)
    (b : α) : ((l.set n b).map f).sum + f a = (l.map f).sum + f b := by
  induction l generalizing n with
  | nil => cases h
  | cons x l ih =>
    cases n with
    | zero =>
      cases h
      simp only [List.set_cons_zero, List.map_cons, List.sum_cons]
      omega
    | succ n =>
      have htail := ih (n := n) h
      simp only [List.set_cons_succ, List.map_cons, List.sum_cons]
      omega

theorem total_set (part : ResourceLease → Nat) {leases : List ResourceLease} {id : Nat}
    {lease lease' : ResourceLease} (h : leases[id]? = some lease) (hkind : lease'.kind = lease.kind)
    (kind : ResourceKind) :
    total part (leases.set id lease') kind + (if lease.kind = kind then part lease else 0) =
      total part leases kind + if lease.kind = kind then part lease' else 0 := by
  have hsum := sum_map_set (fun lease => if lease.kind = kind then part lease else 0) h lease'
  rw [hkind] at hsum
  exact hsum

theorem le_total (part : ResourceLease → Nat) {leases : List ResourceLease} {id : Nat}
    {lease : ResourceLease} (h : leases[id]? = some lease) :
    part lease ≤ total part leases lease.kind := by
  have hmem := List.mem_map_of_mem (f := fun l => if l.kind = lease.kind then part l else 0)
    (List.mem_of_getElem? h)
  rw [if_pos rfl] at hmem
  exact List.le_sum_of_mem hmem

/-! ## The invariant -/

/-- A commit of nothing, or of more than the lease holds. -/
def Refused (lease : ResourceLease) (used : UInt64) : Prop := used = 0 ∨ lease.amount < used

instance (lease : ResourceLease) (used : UInt64) : Decidable (Refused lease used) :=
  inferInstanceAs (Decidable (_ ∨ _))

/-- The answer of a call on a lease. -/
def expected (lease : ResourceLease) : Ending → Result Unit
  | .commit used => if Refused lease used then .error invalidUse else .ok ()
  | .release => .ok ()
  | .drop => .ok ()

/-- A loop gives back what the call does not turn into consumption, and `drop` has the answer of
the call. -/
structure Giving.Sound (g : Giving) (lease : ResourceLease) : Prop where
  share : g.share.toNat + (committedBy g.ending (expected lease g.ending)).toNat =
    lease.amount.toNat
  answer : g.dropping.getD (.ok ()) = expected lease g.ending

/-- A lease that is over committed what the loop did not give back. -/
def Repaid (leases : List ResourceLease) (g : Giving) : Prop :=
  ∃ lease committed, leases[g.lease]? = some lease ∧ lease.fate = .ended committed ∧
    g.share.toNat + committed.toNat = lease.amount.toNat

/-- What every state keeps: each counter is its maximum less what the leases took, the calls in
progress and the leases they consumed belong to each other, and a lease that is over gave back
once what it did not commit. -/
structure Inv (limits : ResourceLimits) (s : State) : Prop where
  balance : ∀ kind, (s.counters kind).toNat + total ResourceLease.taken s.leases kind =
    (maximumFor limits kind).toNat
  positive : ∀ (id : Nat) (lease : ResourceLease), s.leases[id]? = some lease → lease.amount ≠ 0
  leasing : ∀ i kind amount observed, s.threads i = .leasing kind amount observed → amount ≠ 0
  busy : ∀ i g observed, s.threads i = .giving g observed → ∃ lease : ResourceLease,
    s.leases[g.lease]? = some lease ∧ lease.fate = .ending i ∧ lease.released = false ∧
      g.Sound lease
  owner : ∀ (id : Nat) (lease : ResourceLease) i, s.leases[id]? = some lease → lease.fate = .ending i →
    ∃ g observed, s.threads i = .giving g observed ∧ g.lease = id
  held : ∀ (id : Nat) (lease : ResourceLease), s.leases[id]? = some lease → lease.fate = .held → lease.released = false
  givings : ∀ g r, (g, r) ∈ s.givings → r = .ok () ∧ Repaid s.leases g
  once : (s.givings.map (·.1.lease)).Nodup
  settled : ∀ (id : Nat) (lease : ResourceLease) committed, s.leases[id]? = some lease → lease.fate = .ended committed →
    committed = lease.amount ∨ ∃ p ∈ s.givings, p.1.lease = id
  answers : ∀ (id : Nat) ending r, Answer.ended id ending r ∈ s.answers → ∃ lease : ResourceLease,
    s.leases[id]? = some lease ∧ r = expected lease ending ∧
      lease.fate = .ended (committedBy ending r)

variable {limits : ResourceLimits} {s : State} {i id : Nat} {lease : ResourceLease}

/-- A thread is about to consume a lease, or its call did. -/
structure State.Works (s : State) (i id : Nat) (lease : ResourceLease) : Prop where
  found : s.leases[id]? = some lease
  mine : lease.fate = .held ∧ s.threads i = .idle ∨ lease.fate = .ending i

theorem State.Works.taken (h : s.Works i id lease) : lease.taken = lease.amount.toNat := by
  unfold ResourceLease.taken
  rcases h.mine with ⟨hfate, -⟩ | hfate
  all_goals rw [hfate]

/-- No other thread gives back for the lease. -/
theorem State.Works.alone (h : s.Works i id lease) (hinv : Inv limits s) {j : Nat} {g : Giving}
    {observed : Option UInt64} (hj : s.threads j = .giving g observed) (hg : g.lease = id) :
    j = i := by
  obtain ⟨lease', hfound, hfate, -⟩ := hinv.busy j g observed hj
  rw [hg, h.found] at hfound
  cases hfound
  rcases h.mine with ⟨hheld, -⟩ | hending
  · rw [hheld] at hfate
    contradiction
  · rw [hending] at hfate
    exact (Fate.ending.inj hfate).symm

/-- The thread consumed no other lease. -/
theorem State.Works.sole (h : s.Works i id lease) (hinv : Inv limits s) {id' : Nat}
    {lease' : ResourceLease} (hfound : s.leases[id']? = some lease')
    (hfate : lease'.fate = .ending i) : id' = id := by
  obtain ⟨g, observed, hthread, rfl⟩ := hinv.owner id' lease' i hfound hfate
  rcases h.mine with ⟨-, hidle⟩ | hending
  · rw [hidle] at hthread
    contradiction
  · obtain ⟨g', observed', hthread', hid⟩ := hinv.owner id lease i h.found hending
    rw [hthread] at hthread'
    cases hthread'
    exact hid

/-- The lease after a change, seen from an id. -/
theorem getElem?_set_cases {leases : List ResourceLease} {lease' found : ResourceLease} {id' : Nat}
    (h : (leases.set id lease')[id']? = some found) :
    id' = id ∧ found = lease' ∨ id' ≠ id ∧ leases[id']? = some found := by
  by_cases hid : id' = id
  · subst hid
    rw [List.getElem?_set_self'] at h
    obtain ⟨old, -, rfl⟩ := Option.map_eq_some_iff.1 h
    exact .inl ⟨rfl, rfl⟩
  · rw [List.getElem?_set_ne (Ne.symm hid)] at h
    exact .inr ⟨hid, h⟩

theorem getElem?_set_of_ne {leases : List ResourceLease} {lease' : ResourceLease} {id' : Nat}
    (hid : id' ≠ id) : (leases.set id lease')[id']? = leases[id']? :=
  List.getElem?_set_ne (Ne.symm hid)

theorem getElem?_set_found {leases : List ResourceLease} {lease' : ResourceLease}
    (h : leases[id]? = some lease) : (leases.set id lease')[id]? = some lease' := by
  rw [List.getElem?_set_self', h]
  rfl

theorem update_cases {threads : Nat → Thread} {thread found : Thread} {j : Nat}
    (h : Function.update threads i thread j = found) :
    j = i ∧ found = thread ∨ j ≠ i ∧ threads j = found := by
  by_cases hji : j = i
  · subst hji
    rw [Function.update_self] at h
    exact .inl ⟨rfl, h.symm⟩
  · rw [Function.update_of_ne hji] at h
    exact .inr ⟨hji, h⟩

/-- A call consumes a lease and starts to give back. -/
theorem Inv.begin (h : Inv limits s) (hfound : s.leases[id]? = some lease)
    (hfate : lease.fate = .held) (hidle : s.threads i = .idle) {g : Giving} (hg : g.lease = id)
    (hsound : g.Sound lease) :
    Inv limits { s with
      leases := s.leases.set id { lease with fate := .ending i }
      threads := Function.update s.threads i (.giving g none) } := by
  have hworks : s.Works i id lease := ⟨hfound, .inl ⟨hfate, hidle⟩⟩
  have hother : ∀ id' lease', s.leases[id']? = some lease' → lease'.fate ≠ .held → id' ≠ id := by
    rintro id' lease' hfound' hne rfl
    rw [hfound] at hfound'
    cases hfound'
    exact hne hfate
  constructor
  · intro kind
    have hset := total_set ResourceLease.taken hfound
      (rfl : ({ lease with fate := .ending i } : ResourceLease).kind = lease.kind) kind
    have htaken : ({ lease with fate := .ending i } : ResourceLease).taken = lease.taken :=
      hworks.taken.symm
    have hbalance := h.balance kind
    rw [htaken] at hset
    dsimp only
    omega
  · intro id' lease' hfound'
    rcases getElem?_set_cases hfound' with ⟨-, rfl⟩ | ⟨-, hold⟩
    · exact h.positive id lease hfound
    · exact h.positive id' lease' hold
  · intro j kind amount observed hj
    rcases update_cases hj with ⟨-, heq⟩ | ⟨-, hold⟩
    · cases heq
    · exact h.leasing j kind amount observed hold
  · intro j g' observed hj
    rcases update_cases hj with ⟨rfl, heq⟩ | ⟨hji, hold⟩
    · cases heq
      refine ⟨{ lease with fate := .ending j }, ?_, rfl, h.held id lease hfound hfate, ?_⟩
      · rw [hg]
        exact getElem?_set_found hfound
      · exact ⟨hsound.share, hsound.answer⟩
    · obtain ⟨lease', hfound', hfate', hrest⟩ := h.busy j g' observed hold
      have hne : g'.lease ≠ id := fun hid => hji (hworks.alone h hold hid)
      exact ⟨lease', (getElem?_set_of_ne hne).trans hfound', hfate', hrest⟩
  · intro id' lease' j hfound' hfate'
    rcases getElem?_set_cases hfound' with ⟨rfl, rfl⟩ | ⟨hne, hold⟩
    · cases hfate'
      exact ⟨g, none, Function.update_self .., hg⟩
    · have hji : j ≠ i := by
        rintro rfl
        exact hne (hworks.sole h hold hfate')
      obtain ⟨g', observed, hj, hid⟩ := h.owner id' lease' j hold hfate'
      exact ⟨g', observed, (Function.update_of_ne hji ..).trans hj, hid⟩
  · intro id' lease' hfound' hfate'
    rcases getElem?_set_cases hfound' with ⟨-, rfl⟩ | ⟨-, hold⟩
    · cases hfate'
    · exact h.held id' lease' hold hfate'
  · intro g' r hmem
    obtain ⟨hr, lease', committed, hfound', hfate', hshare⟩ := h.givings g' r hmem
    have hne := hother _ _ hfound' (by rw [hfate']; exact nofun)
    exact ⟨hr, lease', committed, (getElem?_set_of_ne hne).trans hfound', hfate', hshare⟩
  · exact h.once
  · intro id' lease' committed hfound' hfate'
    rcases getElem?_set_cases hfound' with ⟨-, rfl⟩ | ⟨-, hold⟩
    · cases hfate'
    · exact h.settled id' lease' committed hold hfate'
  · intro id' ending r hmem
    obtain ⟨lease', hfound', hr, hfate'⟩ := h.answers id' ending r hmem
    have hne := hother _ _ hfound' (by rw [hfate']; exact nofun)
    exact ⟨lease', (getElem?_set_of_ne hne).trans hfound', hr, hfate'⟩

/-- What a call that is over gave back, and what that left in the counters. -/
inductive GivesBack (s : State) (i id : Nat) (lease : ResourceLease) (committed : UInt64) :
    Counters → List (Giving × Result Unit) → Prop where
  | nothing (hidle : s.threads i = .idle) (hfate : lease.fate = .held)
      (hall : committed = lease.amount) : GivesBack s i id lease committed s.counters s.givings
  | share {g : Giving} {observed : Option UInt64} {next : UInt64}
      (hthread : s.threads i = .giving g observed) (hid : g.lease = id)
      (hshare : g.share.toNat + committed.toNat = lease.amount.toNat)
      (hnext : next.toNat = (s.counters lease.kind).toNat + g.share.toNat) :
      GivesBack s i id lease committed (Function.update s.counters lease.kind next)
        (s.givings ++ [(g, .ok ())])

section GivesBack

variable {committed : UInt64} {counters : Counters} {givings : List (Giving × Result Unit)}

theorem GivesBack.works (h : GivesBack s i id lease committed counters givings)
    (hinv : Inv limits s) (hfound : s.leases[id]? = some lease) : s.Works i id lease := by
  refine ⟨hfound, ?_⟩
  cases h with
  | nothing hidle hfate => exact .inl ⟨hfate, hidle⟩
  | share hthread hid =>
    obtain ⟨lease', hfound', hfate, -⟩ := hinv.busy i _ _ hthread
    rw [hid, hfound] at hfound'
    cases hfound'
    exact .inr hfate

/-- What goes back to the counter of the lease is what the call does not commit. -/
theorem GivesBack.toNat_counters (h : GivesBack s i id lease committed counters givings)
    (kind : ResourceKind) : (counters kind).toNat + (if lease.kind = kind then committed.toNat else 0) =
      (s.counters kind).toNat + if lease.kind = kind then lease.amount.toNat else 0 := by
  cases h with
  | nothing _ _ hall => rw [hall]
  | @share g _ next _ _ hshare hnext =>
    by_cases hkind : lease.kind = kind
    · subst hkind
      rw [Function.update_self, if_pos rfl, if_pos rfl]
      omega
    · rw [Function.update_of_ne (Ne.symm hkind), if_neg hkind, if_neg hkind]

/-- A call on a lease returns, and the lease is over. -/
theorem Inv.conclude (h : Inv limits s) (hfound : s.leases[id]? = some lease) {ending : Ending}
    {result : Result Unit} (hresult : result = expected lease ending)
    (hgives : GivesBack s i id lease (committedBy ending result) counters givings)
    (released : Bool) :
    Inv limits ({ s with counters, givings }.finish i id { lease with released } ending result) := by
  have hworks := hgives.works h hfound
  have hother : ∀ id' lease' committed', s.leases[id']? = some lease' →
      lease'.fate = .ended committed' → id' ≠ id := by
    rintro id' lease' committed' hfound' hended rfl
    rw [hfound] at hfound'
    cases hfound'
    rcases hworks.mine with ⟨hheld, -⟩ | hending
    · rw [hheld] at hended
      contradiction
    · rw [hending] at hended
      contradiction
  unfold State.finish
  constructor
  · intro kind
    have hset := total_set ResourceLease.taken hfound (rfl : ({ lease with
      released, fate := .ended (committedBy ending result) } : ResourceLease).kind = lease.kind) kind
    have htaken : ({ lease with released, fate := .ended (committedBy ending result) } :
      ResourceLease).taken = (committedBy ending result).toNat := rfl
    have hcounters := hgives.toNat_counters kind
    have hbalance := h.balance kind
    rw [htaken, hworks.taken] at hset
    dsimp only
    omega
  · intro id' lease' hfound'
    rcases getElem?_set_cases hfound' with ⟨-, rfl⟩ | ⟨-, hold⟩
    · exact h.positive id lease hfound
    · exact h.positive id' lease' hold
  · intro j kind amount observed hj
    rcases update_cases hj with ⟨-, heq⟩ | ⟨-, hold⟩
    · cases heq
    · exact h.leasing j kind amount observed hold
  · intro j g' observed hj
    rcases update_cases hj with ⟨-, heq⟩ | ⟨hji, hold⟩
    · cases heq
    · obtain ⟨lease', hfound', hfate', hrest⟩ := h.busy j g' observed hold
      have hne : g'.lease ≠ id := fun hid => hji (hworks.alone h hold hid)
      exact ⟨lease', (getElem?_set_of_ne hne).trans hfound', hfate', hrest⟩
  · intro id' lease' j hfound' hfate'
    rcases getElem?_set_cases hfound' with ⟨-, rfl⟩ | ⟨hne, hold⟩
    · cases hfate'
    · have hji : j ≠ i := by
        rintro rfl
        exact hne (hworks.sole h hold hfate')
      obtain ⟨g', observed, hj, hid⟩ := h.owner id' lease' j hold hfate'
      exact ⟨g', observed, (Function.update_of_ne hji ..).trans hj, hid⟩
  · intro id' lease' hfound' hfate'
    rcases getElem?_set_cases hfound' with ⟨-, rfl⟩ | ⟨-, hold⟩
    · cases hfate'
    · exact h.held id' lease' hold hfate'
  · intro g' r hmem
    have hstays (after : ResourceLease) (hmem : (g', r) ∈ s.givings) :
        r = .ok () ∧ Repaid (s.leases.set id after) g' := by
      obtain ⟨hr, lease', committed', hfound', hfate', hshare⟩ := h.givings g' r hmem
      have hne := hother _ _ _ hfound' hfate'
      exact ⟨hr, lease', committed', (getElem?_set_of_ne hne).trans hfound', hfate', hshare⟩
    cases hgives with
    | nothing => exact hstays _ hmem
    | share hthread hid hshare =>
      rcases List.mem_append.1 hmem with hmem | hmem
      · exact hstays _ hmem
      · cases List.mem_singleton.1 hmem
        refine ⟨rfl, { lease with released, fate := .ended (committedBy ending result) }, _, ?_, rfl,
          hshare⟩
        rw [hid]
        exact getElem?_set_found hfound
  · cases hgives with
    | nothing => exact h.once
    | share hthread hid hshare =>
      dsimp only
      rw [List.map_append, List.nodup_append]
      refine ⟨h.once, List.nodup_singleton _, ?_⟩
      rintro id' hmem _ hlast rfl
      obtain ⟨⟨g', r⟩, hgiving, rfl⟩ := List.mem_map.1 hmem
      obtain ⟨-, lease', committed', hfound', hfate', -⟩ := h.givings g' r hgiving
      refine hother _ _ _ hfound' hfate' ?_
      rw [List.mem_singleton.1 hlast]
      exact hid
  · intro id' lease' committed' hfound' hfate'
    rcases getElem?_set_cases hfound' with ⟨rfl, rfl⟩ | ⟨-, hold⟩
    · cases hfate'
      cases hgives with
      | nothing _ _ hall => exact .inl hall
      | share _ hid =>
        exact .inr ⟨_, List.mem_append_right _ (List.mem_singleton_self _), hid⟩
    · rcases h.settled id' lease' committed' hold hfate' with hall | ⟨p, hp, hid⟩
      · exact .inl hall
      · refine .inr ⟨p, ?_, hid⟩
        cases hgives with
        | nothing => exact hp
        | share => exact List.mem_append_left _ hp
  · intro id' ending' r hmem
    rcases List.mem_append.1 hmem with hmem | hmem
    · obtain ⟨lease', hfound', hr, hfate'⟩ := h.answers id' ending' r hmem
      have hne := hother _ _ _ hfound' hfate'
      exact ⟨lease', (getElem?_set_of_ne hne).trans hfound', hr, hfate'⟩
    · cases List.mem_singleton.1 hmem
      exact ⟨_, getElem?_set_found hfound, hresult, rfl⟩

end GivesBack

/-! ## The steps -/

/-- A thread moves within its loop, and nothing is written. -/
theorem Inv.goto (h : Inv limits s) {thread : Thread}
    (hleasing : ∀ kind amount observed, thread = .leasing kind amount observed → amount ≠ 0)
    (hgiving : ∀ g observed, thread = .giving g observed →
      ∃ seen, s.threads i = .giving g seen)
    (hstays : ∀ g seen, s.threads i = .giving g seen → ∃ observed, thread = .giving g observed) :
    Inv limits (s.goto i thread) := by
  unfold State.goto
  refine ⟨h.balance, h.positive, ?_, ?_, ?_, h.held, h.givings, h.once, h.settled, h.answers⟩
  · intro j kind amount observed hj
    rcases update_cases hj with ⟨-, heq⟩ | ⟨-, hold⟩
    · exact hleasing kind amount observed heq.symm
    · exact h.leasing j kind amount observed hold
  · intro j g observed hj
    rcases update_cases hj with ⟨rfl, heq⟩ | ⟨-, hold⟩
    · obtain ⟨seen, hthread⟩ := hgiving g observed heq.symm
      exact h.busy j g seen hthread
    · exact h.busy j g observed hold
  · intro id lease j hfound hfate
    obtain ⟨g, seen, hthread, hid⟩ := h.owner id lease j hfound hfate
    by_cases hji : j = i
    · subst hji
      obtain ⟨observed, rfl⟩ := hstays g seen hthread
      exact ⟨g, observed, Function.update_self .., hid⟩
    · exact ⟨g, seen, (Function.update_of_ne hji ..).trans hthread, hid⟩

/-- The answer of a `try_lease` is no answer of a call on a lease. -/
theorem Inv.answer (h : Inv limits s) (kind : ResourceKind) (amount : UInt64)
    (result : Result Nat) : Inv limits (s.answer (.tryLease kind amount result)) := by
  unfold State.answer
  refine ⟨h.balance, h.positive, h.leasing, h.busy, h.owner, h.held, h.givings, h.once, h.settled,
    ?_⟩
  intro id ending r hmem
  rcases List.mem_append.1 hmem with hmem | hmem
  · exact h.answers id ending r hmem
  · cases List.mem_singleton.1 hmem

theorem getElem?_push_cases {leases : List ResourceLease} {new found : ResourceLease}
    (h : (leases ++ [new])[id]? = some found) :
    leases[id]? = some found ∨ found = new := by
  by_cases hlt : id < leases.length
  · rw [List.getElem?_append_left hlt] at h
    exact .inl h
  · rw [List.getElem?_append_right (Nat.le_of_not_lt hlt)] at h
    exact .inr (List.mem_singleton.1 (List.mem_of_getElem? h))

theorem getElem?_push {leases : List ResourceLease} (new : ResourceLease)
    (h : leases[id]? = some lease) : (leases ++ [new])[id]? = some lease := by
  obtain ⟨hlt, -⟩ := List.getElem?_eq_some_iff.1 h
  rw [List.getElem?_append_left hlt]
  exact h

/-- The loop of `try_lease` takes the amount out of the counter. -/
theorem Inv.acquire (h : Inv limits s) {kind : ResourceKind} {amount next : UInt64}
    {observed : Option UInt64} (hthread : s.threads i = .leasing kind amount observed)
    (hnext : next.toNat + amount.toNat = (s.counters kind).toNat) :
    Inv limits ({ s with counters := Function.update s.counters kind next }.acquired i kind amount
      (.ok ())) := by
  unfold State.acquired
  dsimp only
  constructor
  · intro kind'
    have hbalance := h.balance kind'
    have htotal : total ResourceLease.taken (s.leases ++ [⟨kind, amount, false, .held⟩]) kind' =
        total ResourceLease.taken s.leases kind' + if kind = kind' then amount.toNat else 0 := by
      unfold total
      rw [List.map_append, List.sum_append]
      simp only [List.map_cons, List.map_nil, List.sum_cons, List.sum_nil, Nat.add_zero]
      rfl
    dsimp only
    rw [htotal]
    by_cases hkind : kind = kind'
    · subst hkind
      rw [Function.update_self, if_pos rfl]
      omega
    · rw [Function.update_of_ne (Ne.symm hkind), if_neg hkind]
      omega
  · intro id lease hfound
    rcases getElem?_push_cases hfound with hold | rfl
    · exact h.positive id lease hold
    · exact h.leasing i kind amount observed hthread
  · intro j kind' amount' observed' hj
    rcases update_cases hj with ⟨-, heq⟩ | ⟨-, hold⟩
    · cases heq
    · exact h.leasing j kind' amount' observed' hold
  · intro j g observed' hj
    rcases update_cases hj with ⟨-, heq⟩ | ⟨-, hold⟩
    · cases heq
    · obtain ⟨lease, hfound, hrest⟩ := h.busy j g observed' hold
      exact ⟨lease, getElem?_push _ hfound, hrest⟩
  · intro id lease j hfound hfate
    rcases getElem?_push_cases hfound with hold | rfl
    · obtain ⟨g, seen, hj, hid⟩ := h.owner id lease j hold hfate
      have hji : j ≠ i := by
        rintro rfl
        rw [hthread] at hj
        contradiction
      exact ⟨g, seen, (Function.update_of_ne hji ..).trans hj, hid⟩
    · cases hfate
  · intro id lease hfound hfate
    rcases getElem?_push_cases hfound with hold | rfl
    · exact h.held id lease hold hfate
    · rfl
  · intro g r hmem
    obtain ⟨hr, lease, committed, hfound, hrest⟩ := h.givings g r hmem
    exact ⟨hr, lease, committed, getElem?_push _ hfound, hrest⟩
  · exact h.once
  · intro id lease committed hfound hfate
    rcases getElem?_push_cases hfound with hold | rfl
    · exact h.settled id lease committed hold hfate
    · cases hfate
  · intro id ending r hmem
    rcases List.mem_append.1 hmem with hmem | hmem
    · obtain ⟨lease, hfound, hrest⟩ := h.answers id ending r hmem
      exact ⟨lease, getElem?_push _ hfound, hrest⟩
    · cases List.mem_singleton.1 hmem

theorem expected_commit {used : UInt64} (h : ¬ Refused lease used) :
    expected lease (.commit used) = .ok () := if_neg h

theorem expected_refused {used : UInt64} (h : Refused lease used) :
    expected lease (.commit used) = .error invalidUse := if_pos h

/-- A thread consumes a lease that some holder owns. -/
theorem Inv.consume (h : Inv limits s) (hfound : s.leases[id]? = some lease)
    (hfate : lease.fate = .held) (hidle : s.threads i = .idle) (ending : Ending) :
    Inv limits (s.consume i id lease ending) := by
  have hreleased := h.held id lease hfound hfate
  have hdrop : ∀ result, result = expected lease ending → committedBy ending result = 0 →
      Inv limits (s.dropLease i id lease ending result) := by
    intro result hresult hnothing
    unfold State.dropLease
    rw [if_neg (by rw [hreleased]; decide)]
    refine h.begin hfound hfate hidle rfl ⟨?_, hresult⟩
    rw [← hresult, hnothing]
    rfl
  cases ending with
  | commit used =>
    rw [State.consume]
    split
    next hrefused => exact hdrop _ (expected_refused hrefused).symm rfl
    next hadmitted =>
      have hok := expected_commit hadmitted
      have hle : used ≤ lease.amount := UInt64.not_lt.1 fun hlt => hadmitted (.inr hlt)
      split
      next =>
        refine h.begin hfound hfate hidle rfl ⟨?_, ?_⟩
        · rw [hok]
          show (lease.amount - used).toNat + used.toNat = _
          rw [UInt64.toNat_sub_of_le _ _ hle]
          exact Nat.sub_add_cancel hle
        · rw [hok]
          rfl
      next hall =>
        have hused : used = lease.amount := by
          rw [UInt64.lt_iff_toNat_lt, UInt64.toNat_sub_of_le _ _ hle] at hall
          have hle' : used.toNat ≤ lease.amount.toNat := hle
          have hzero : ¬ 0 < lease.amount.toNat - used.toNat := hall
          exact UInt64.toNat_inj.1 (by omega)
        unfold State.dropLease
        rw [if_pos rfl]
        exact h.conclude hfound hok.symm (.nothing hidle hfate hused) true
  | release => exact h.begin hfound hfate hidle rfl ⟨rfl, rfl⟩
  | drop => exact hdrop _ rfl rfl

/-- The loop of `ResourceBudget::release` puts its share back. -/
theorem Inv.give (h : Inv limits s) {g : Giving} {observed : Option UInt64} {next : UInt64}
    (hthread : s.threads i = .giving g observed) (hfound : s.leases[g.lease]? = some lease)
    (hnext : next.toNat = (s.counters lease.kind).toNat + g.share.toNat) :
    Inv limits ({ s with
      counters := Function.update s.counters lease.kind next
      givings := s.givings ++ [(g, Except.ok ())] }.given i lease g (.ok ())) := by
  obtain ⟨lease', hfound', -, -, hsound⟩ := h.busy i g observed hthread
  rw [hfound] at hfound'
  cases hfound'
  have hanswer := hsound.answer
  unfold State.given
  dsimp only
  cases hdropping : g.dropping with
  | none =>
    rw [hdropping] at hanswer
    unfold State.dropLease
    rw [if_pos rfl]
    refine h.conclude hfound hanswer (.share hthread rfl ?_ hnext) true
    have hok : (Except.ok () : Result Unit) = expected lease g.ending := hanswer
    rw [hok]
    exact hsound.share
  | some result =>
    rw [hdropping] at hanswer
    refine h.conclude hfound hanswer (.share hthread rfl ?_ hnext) true
    have hresult : result = expected lease g.ending := hanswer
    rw [hresult]
    exact hsound.share

/-- What a thread gives back fits under the maximum. -/
theorem Inv.room (h : Inv limits s) {g : Giving} {observed : Option UInt64}
    (hthread : s.threads i = .giving g observed) (hfound : s.leases[g.lease]? = some lease) :
    (s.counters lease.kind).toNat + g.share.toNat ≤ (maximumFor limits lease.kind).toNat := by
  obtain ⟨lease', hfound', hfate, -, hsound⟩ := h.busy i g observed hthread
  rw [hfound] at hfound'
  cases hfound'
  have hworks : s.Works i g.lease lease := ⟨hfound, .inr hfate⟩
  have htaken := le_total ResourceLease.taken hfound
  have hbalance := h.balance lease.kind
  have hshare := hsound.share
  rw [hworks.taken] at htaken
  omega

/-- **Every step keeps the invariant.** -/
theorem Inv.step (h : Inv limits s) {event : Event} {s' : State}
    (hstep : step limits s event = some s') : Inv limits s' := by
  cases event with
  | tryLease i kind amount =>
    rw [Resource.step] at hstep
    split at hstep
    next hidle =>
      split at hstep
      next =>
        cases hstep
        exact h.answer kind amount _
      next hamount =>
        cases hstep
        refine h.goto (fun _ _ _ heq => ?_) (fun _ _ heq => by cases heq) fun g seen hthread => ?_
        · cases heq
          exact hamount
        · rw [hidle] at hthread
          contradiction
    next => contradiction
  | consume i id ending =>
    rw [Resource.step] at hstep
    split at hstep
    next lease hidle hfound =>
      split at hstep
      next hfate =>
        cases hstep
        exact h.consume hfound hfate hidle ending
      next => contradiction
    next => contradiction
  | turn i spurious =>
    rw [Resource.step] at hstep
    split at hstep
    next => contradiction
    next kind amount observed hthread =>
      have hturn := turn_spec (leased amount) (s.counters kind) observed spurious
      have hnone : ∀ g seen, s.threads i ≠ .giving g seen := by
        intro g seen hgiving
        rw [hthread] at hgiving
        contradiction
      generalize turn (leased amount) (s.counters kind) observed spurious = r at hstep hturn
      cases hturn with
      | looks =>
        dsimp only at hstep
        rw [Function.update_eq_self] at hstep
        cases hstep
        refine h.goto (fun _ _ _ heq => ?_) (fun _ _ heq => by cases heq)
          fun g seen hgiving => absurd hgiving (hnone g seen)
        cases heq
        exact h.leasing i kind amount observed hthread
      | fails =>
        dsimp only at hstep
        rw [Function.update_eq_self] at hstep
        cases hstep
        have hidle : Inv limits (s.goto i .idle) :=
          h.goto (fun _ _ _ heq => by cases heq) (fun _ _ heq => by cases heq)
            fun g seen hgiving => absurd hgiving (hnone g seen)
        exact hidle.answer kind amount _
      | writes hnext =>
        cases hstep
        exact h.acquire hthread (leased_spec hnext)
    next g observed hthread =>
      split at hstep
      next => contradiction
      next lease hfound =>
        have hroom := h.room hthread hfound
        obtain ⟨next, hok, hnext⟩ := restored_spec hroom
        have hturn := turn_spec (restored (maximumFor limits lease.kind) g.share)
          (s.counters lease.kind) observed spurious
        generalize turn (restored (maximumFor limits lease.kind) g.share) (s.counters lease.kind)
          observed spurious = r at hstep hturn
        cases hturn with
        | looks =>
          dsimp only at hstep
          rw [Function.update_eq_self] at hstep
          cases hstep
          refine h.goto (fun _ _ _ heq => by cases heq) (fun g' observed' heq => ?_)
            fun g' seen hgiving => ?_
          · cases heq
            exact ⟨observed, hthread⟩
          · rw [hthread] at hgiving
            cases hgiving
            exact ⟨_, rfl⟩
        | fails herror =>
          rw [hok] at herror
          contradiction
        | writes hwritten =>
          rw [hok] at hwritten
          cases hwritten
          cases hstep
          exact h.give hthread hfound hnext

theorem inv_initial (limits : ResourceLimits) : Inv limits (initial limits) := by
  constructor
  · intro kind
    rfl
  all_goals simp [initial]

theorem inv_run {events : List Event} {s' : State} (h : Inv limits s)
    (hrun : run limits s events = some s') : Inv limits s' := by
  induction events generalizing s with
  | nil =>
    cases hrun
    exact h
  | cons event events ih =>
    obtain ⟨t, hstep, hrest⟩ := Option.bind_eq_some_iff.1 hrun
    exact ih (h.step hstep) hrest

/-! ## Conservation -/

/-- `ResourceBudget::remaining`. -/
def State.remaining (s : State) (kind : ResourceKind) : UInt64 := s.counters kind

/-- No call is in progress. -/
def State.Quiescent (s : State) : Prop := ∀ i, s.threads i = .idle

/-- What holds of a state some run reached: at rest, what remains, what the live leases hold and
what was committed make up the limit; in every state nothing exceeds it; giving back never fails
and happens once for a lease, never beyond its amount; and a refused commit returns it whole. -/
structure Conserved (limits : ResourceLimits) (s : State) : Prop where
  accounted : s.Quiescent → ∀ kind, (s.remaining kind).toNat +
    total ResourceLease.live s.leases kind + total ResourceLease.committed s.leases kind =
      (maximumFor limits kind).toNat
  bounded : ∀ kind, s.remaining kind ≤ maximumFor limits kind
  exact : ∀ kind, (s.remaining kind).toNat + total ResourceLease.taken s.leases kind =
    (maximumFor limits kind).toNat
  given : ∀ g r, (g, r) ∈ s.givings → r = .ok () ∧ Repaid s.leases g
  once : (s.givings.map (·.1.lease)).Nodup
  answered : ∀ id ending r, Answer.ended id ending r ∈ s.answers → ∃ lease,
    s.leases[id]? = some lease ∧ r = expected lease ending ∧
      lease.fate = .ended (committedBy ending r)
  refused : ∀ id used r, Answer.ended id (.commit used) r ∈ s.answers → ∃ lease,
    s.leases[id]? = some lease ∧ (Refused lease used → r = .error invalidUse ∧
      ∃ p ∈ s.givings, p.1.lease = id ∧ p.1.share = lease.amount)

/-- At rest a lease is live or over. -/
theorem Inv.total_taken (h : Inv limits s) (hquiet : s.Quiescent) (kind : ResourceKind) :
    total ResourceLease.taken s.leases kind =
      total ResourceLease.live s.leases kind + total ResourceLease.committed s.leases kind := by
  unfold total
  rw [← List.sum_map_add]
  refine congrArg List.sum (List.map_congr_left fun lease hmem => ?_)
  obtain ⟨id, hfound⟩ := List.mem_iff_getElem?.1 hmem
  by_cases hkind : lease.kind = kind
  · rw [if_pos hkind, if_pos hkind, if_pos hkind]
    unfold ResourceLease.taken ResourceLease.live ResourceLease.committed
    cases hfate : lease.fate with
    | held => rfl
    | ending i =>
      obtain ⟨g, observed, hthread, -⟩ := h.owner id lease i hfound hfate
      rw [hquiet i] at hthread
      contradiction
    | ended committed => exact (Nat.zero_add _).symm
  · rw [if_neg hkind, if_neg hkind, if_neg hkind]

theorem Inv.conserved (h : Inv limits s) : Conserved limits s := by
  refine ⟨fun hquiet kind => ?_, fun kind => ?_, h.balance, h.givings, h.once, h.answers,
    fun id used r hmem => ?_⟩
  · have hbalance := h.balance kind
    have htotal := h.total_taken hquiet kind
    unfold State.remaining
    omega
  · rw [UInt64.le_iff_toNat_le]
    have hbalance := h.balance kind
    unfold State.remaining
    omega
  · obtain ⟨lease, hfound, hr, hfate⟩ := h.answers id _ r hmem
    refine ⟨lease, hfound, fun hrefused => ?_⟩
    rw [expected_refused hrefused] at hr
    subst hr
    refine ⟨rfl, ?_⟩
    rcases h.settled id lease _ hfound hfate with hall | ⟨⟨g, r⟩, hp, rfl⟩
    · exact absurd hall.symm (h.positive id lease hfound)
    · obtain ⟨-, lease', committed, hfound', hfate', hshare⟩ := h.givings g r hp
      rw [hfound] at hfound'
      cases hfound'
      rw [hfate] at hfate'
      cases hfate'
      exact ⟨_, hp, rfl, UInt64.toNat_inj.1 hshare⟩

/-- **The budget is conserved, whatever the order of the steps of its holders.** -/
theorem run_conserved (limits : ResourceLimits) {events : List Event} {s : State}
    (hrun : run limits (initial limits) events = some s) : Conserved limits s :=
  (inv_run (inv_initial limits) hrun).conserved

/-- Two holders of ten rows: the first loses the exchange once and fails it once for no reason,
a commit of nothing is refused and a commit of a part gives the rest back. -/
def twoHolders : List Event :=
  [.tryLease 0 .rows 6, .turn 0 false, .tryLease 1 .rows 3, .turn 1 false, .turn 1 false,
    .turn 0 false, .turn 0 true, .turn 0 false, .consume 0 0 (.commit 0), .turn 0 false,
    .consume 1 1 (.commit 4), .turn 1 false, .turn 0 false, .turn 1 false, .turn 1 false]

def tenRows : ResourceLimits := ⟨10, 10, 10, 10, 10, 10, 10⟩

theorem twoHolders_conserved : ∃ s, run tenRows (initial tenRows) twoHolders = some s ∧
    s.remaining .rows = 6 ∧ s.givings.map (·.1.share) = [3, 2] ∧ Conserved tenRows s := by
  have hends : ∃ s, run tenRows (initial tenRows) twoHolders = some s ∧
      s.remaining .rows = 6 ∧ s.givings.map (·.1.share) = [3, 2] := ⟨_, rfl, rfl, rfl⟩
  obtain ⟨s, hrun, hremaining, hshares⟩ := hends
  exact ⟨s, hrun, hremaining, hshares, run_conserved tenRows hrun⟩

end Plenora.Core.Resource
