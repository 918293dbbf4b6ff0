import Plenora.Lib.Threads

/-!
# Cancellation tokens under any interleaving

A child token is linked to its parents, and a cancellation walks the links one
node at a time.  The links are weak: a token lives while users have handles of it
or a walk has it to do.  Each section under a lock, each compare-and-swap and each
read of an atomic or of the clock is one operation; the calls of any number of
threads interleave.

    exec : Store → Op → Store × List Op             one operation, and those it leaves to do
    start : Store → Call → Option (Store × List Op) one call of a user, the worker or the clock
-/

namespace Plenora.Core.Cancellation

open Plenora.Lib

/-! ## Data model -/

inductive CancellationReason where
  | requested | deadline | parent
  deriving DecidableEq, Repr

abbrev TokenId := Nat
abbrev FutureId := Nat
abbrev Waker := Nat
abbrev Instant := Nat

structure WaiterEntry where
  owner : FutureId
  waker : Waker
  deriving DecidableEq, Repr

structure ScheduledDeadline where
  due : Instant
  token : TokenId
  deriving DecidableEq, Repr

/-- A `cancelled()` future.  Beside the source's fields it records who holds it (`busy` while a
call has it, `dropped` at the end), what the last poll answered, the waker it last registered and
the wakers that were woken since. -/
structure Cancelled where
  token : TokenId
  registered : Bool
  busy : Bool
  dropped : Bool
  output : Option CancellationReason
  waker : Waker
  wokenBy : List Waker
  deriving Repr

/-- The fields of every token, the futures, the deadlines the worker waits for and the clock.
Tokens are numbered in the order they are made; those from `nextToken` on are blank.  A token has
a strong count: the `handles` of the users, and the references of the `walks`. -/
structure Store where
  now : Instant
  nextToken : TokenId
  handles : TokenId → Nat
  walks : TokenId → Nat
  reason : TokenId → Option CancellationReason
  deadline : TokenId → Option Instant
  waiters : TokenId → List WaiterEntry
  children : TokenId → List TokenId
  nextFuture : FutureId
  futures : FutureId → Cancelled
  scheduled : List ScheduledDeadline

/-- Who asked for the reason of a token, and goes on with it. -/
inductive Asker where
  | inherit (child : TokenId)
  | firstCheck (future : FutureId) (waker : Waker)
  | secondCheck (future : FutureId)
  deriving DecidableEq, Repr

/-- The atomic operations. -/
inductive Op where
  | cas (token : TokenId) (reason : CancellationReason)
  | takeWaiters (token : TokenId)
  | wake (future : FutureId) (waker : Waker)
  | spread (token : TokenId) (reason : CancellationReason)
  | linking (todo parents : List TokenId) (child : TokenId)
  | upgrade (token : TokenId)
  | load (token : TokenId) (asker : Asker)
  | clock (token : TokenId) (asker : Asker)
  | register (future : FutureId) (waker : Waker)
  | unregister (future : FutureId) (output : Option CancellationReason)
  deriving DecidableEq, Repr

/-- The calls of the users of tokens, of the deadline worker and of the passing time. -/
inductive Call where
  | token (deadline : Option Instant)
  | childToken (parent : TokenId)
  | childTokenWithDeadline (parent : TokenId) (deadline : Option Instant)
  | linked (parents : List TokenId)
  | clone (token : TokenId)
  | release (token : TokenId)
  | cancel (token : TokenId)
  | cancelDueToDeadline (token : TokenId)
  | cancelled (token : TokenId)
  | poll (future : FutureId) (waker : Waker)
  | drop (future : FutureId)
  | fire (entry : ScheduledDeadline)
  | tick (now : Instant)
  deriving Repr

/-! ## Algorithm -/

/-- The reason a cancellation has for the children. -/
def inherited : CancellationReason → CancellationReason
  | .deadline => .deadline
  | .requested | .parent => .parent

def expired (s : Store) (token : TokenId) : Bool :=
  match s.deadline token with
  | some deadline => s.now ≥ deadline
  | none => false

/-- What `reason()` answers when nothing moves between its two reads. -/
def observed (s : Store) (token : TokenId) : Option CancellationReason :=
  (s.reason token).or (if expired s token then some .deadline else none)

/-- The strong count is not zero: a weak reference can be upgraded. -/
def alive (s : Store) (token : TokenId) : Bool := 0 < s.handles token + s.walks token

/-- A walk takes a strong reference of each token. -/
def retain (s : Store) (tokens : List TokenId) : Store :=
  { s with walks := fun token => s.walks token + tokens.count token }

/-- A walk is done with a token. -/
def leave (s : Store) (token : TokenId) : Store :=
  { s with walks := Function.update s.walks token (s.walks token - 1) }

def compactionThreshold : Nat := 1024

/-- The new deadline joins the queue, which loses the settled ones when it has grown long. -/
def schedule (s : Store) (due : Instant) (token : TokenId) : List ScheduledDeadline :=
  (if s.scheduled.length ≥ compactionThreshold then
    s.scheduled.filter fun entry => alive s entry.token && s.reason entry.token = none
  else s.scheduled) ++ [⟨due, token⟩]

/-- `new_inner`: a blank token with one handle, in the queue when its deadline is still to come. -/
def newInner (s : Store) (deadline : Option Instant) : Store :=
  { s with
    nextToken := s.nextToken + 1
    handles := Function.update s.handles s.nextToken 1
    walks := Function.update s.walks s.nextToken 0
    reason := Function.update s.reason s.nextToken none
    deadline := Function.update s.deadline s.nextToken deadline
    waiters := Function.update s.waiters s.nextToken []
    children := Function.update s.children s.nextToken []
    scheduled :=
      match deadline with
      | some due => if due > s.now then schedule s due s.nextToken else s.scheduled
      | none => s.scheduled }

/-- The deadline of a child: the nearer of its own and its parent's. -/
def nearer : Option Instant → Option Instant → Option Instant
  | some parent, some child => some (min parent child)
  | some parent, none => some parent
  | none, child => child

/-- The entry of a future gets the waker, or a new entry joins. -/
def upsertWaiter (future : FutureId) (waker : Waker) : List WaiterEntry → List WaiterEntry
  | [] => [⟨future, waker⟩]
  | entry :: entries =>
    if entry.owner = future then ⟨future, waker⟩ :: entries
    else entry :: upsertWaiter future waker entries

def setFuture (s : Store) (future : FutureId) (value : Cancelled) : Store :=
  { s with futures := Function.update s.futures future value }

/-- What the asker does with the reason it read. -/
def resume (s : Store) : Asker → Option CancellationReason → Store × List Op
  | .inherit _, none => (s, [])
  | .inherit child, some reason => (retain s [child], [.cas child (inherited reason)])
  | .firstCheck future _, some reason =>
    (setFuture s future { s.futures future with busy := false, output := some reason }, [])
  | .firstCheck future waker, none => (s, [.register future waker])
  | .secondCheck future, some reason => (s, [.unregister future (some reason)])
  | .secondCheck future, none =>
    (setFuture s future { s.futures future with busy := false, output := none }, [])

def exec (s : Store) : Op → Store × List Op
  | .cas token reason =>
    if s.reason token = none then
      ({ s with reason := Function.update s.reason token (some reason) },
        [.takeWaiters token, .spread token reason])
    else (leave s token, [])
  | .takeWaiters token =>
    ({ s with waiters := Function.update s.waiters token [] },
      (s.waiters token).map fun entry => .wake entry.owner entry.waker)
  | .wake future waker =>
    if (s.futures future).dropped then (s, [])
    else
      (setFuture s future
        { s.futures future with wokenBy := waker :: (s.futures future).wokenBy }, [])
  -- the walk is a stack: the last child is visited first
  | .spread token reason =>
    let live := (s.children token).filter (alive s)
    (leave (retain { s with children := Function.update s.children token live } live) token,
      live.reverse.map fun child => .cas child (inherited reason))
  | .linking (parent :: todo) parents child =>
    let live := (s.children parent).filter (alive s)
    ({ s with children := Function.update s.children parent (live ++ [child]) },
      [.linking todo parents child])
  | .linking [] parents child => (s, parents.map fun parent => .load parent (.inherit child))
  | .upgrade token =>
    if alive s token then (retain s [token], [.cas token .deadline]) else (s, [])
  | .load token asker =>
    match s.reason token with
    | some reason => resume s asker (some reason)
    | none => (s, [.clock token asker])
  | .clock token asker => resume s asker (if expired s token then some .deadline else none)
  | .register future waker =>
    let token := (s.futures future).token
    let live := (s.waiters token).filter fun entry => !(s.futures entry.owner).dropped
    ({ setFuture s future { s.futures future with registered := true, waker, wokenBy := [] } with
        waiters := Function.update s.waiters token (upsertWaiter future waker live) },
      [.load token (.secondCheck future)])
  | .unregister future output =>
    let token := (s.futures future).token
    ({ setFuture s future { s.futures future with
          registered := false, busy := false, dropped := output.isNone, output } with
        waiters := Function.update s.waiters token ((s.waiters token).filter fun entry =>
          !(s.futures entry.owner).dropped && entry.owner ≠ future) }, [])

/-- A user has a handle of the token.  It may be released while another call has the token too,
which the borrows of the source rule out. -/
def held (s : Store) (token : TokenId) : Prop := token < s.nextToken ∧ 0 < s.handles token

instance (s : Store) (token : TokenId) : Decidable (held s token) :=
  inferInstanceAs (Decidable (_ ∧ _))

/-- The future is there and nobody else holds it. -/
def available (s : Store) (future : FutureId) : Prop :=
  future < s.nextFuture ∧ ¬ (s.futures future).busy ∧ ¬ (s.futures future).dropped

instance (s : Store) (future : FutureId) : Decidable (available s future) :=
  inferInstanceAs (Decidable (_ ∧ _))

def start (s : Store) : Call → Option (Store × List Op)
  | .token deadline => some (newInner s deadline, [])
  | .childToken parent =>
    if held s parent then
      some (newInner s (nearer (s.deadline parent) (s.deadline parent)),
        [.linking [parent] [parent] s.nextToken])
    else none
  | .childTokenWithDeadline parent deadline =>
    if held s parent then
      some (newInner s (nearer (s.deadline parent) deadline),
        [.linking [parent] [parent] s.nextToken])
    else none
  | .linked parents =>
    if ∀ parent ∈ parents, held s parent then
      some (newInner s (parents.filterMap s.deadline).min?, [.linking parents parents s.nextToken])
    else none
  | .clone token =>
    if held s token then
      some ({ s with handles := Function.update s.handles token (s.handles token + 1) }, [])
    else none
  | .release token =>
    if held s token then
      some ({ s with handles := Function.update s.handles token (s.handles token - 1) }, [])
    else none
  | .cancel token => if held s token then some (retain s [token], [.cas token .requested]) else none
  | .cancelDueToDeadline token =>
    if held s token then some (retain s [token], [.cas token .deadline]) else none
  | .cancelled token =>
    if held s token then
      some ({ setFuture s s.nextFuture ⟨token, false, false, false, none, 0, []⟩ with
        nextFuture := s.nextFuture + 1 }, [])
    else none
  | .poll future waker =>
    if available s future then
      some (setFuture s future { s.futures future with busy := true, output := none },
        [.load (s.futures future).token (.firstCheck future waker)])
    else none
  | .drop future =>
    if available s future then
      if (s.futures future).registered then
        some (setFuture s future { s.futures future with busy := true },
          [.unregister future none])
      else some (setFuture s future { s.futures future with dropped := true }, [])
    else none
  -- the queue gives the nearest deadline, once it has expired
  | .fire entry =>
    if entry ∈ s.scheduled ∧ entry.due ≤ s.now ∧ ∀ other ∈ s.scheduled, entry.due ≤ other.due then
      some ({ s with scheduled := s.scheduled.erase entry }, [.upgrade entry.token])
    else none
  | .tick now => if s.now ≤ now then some ({ s with now }, []) else none

def tokens : Threads Store Op Call where
  exec := exec
  start := start

def blank : Cancelled := ⟨0, false, false, false, none, 0, []⟩

/-- No token, no future, no thread with work. -/
def initial : Threads.Config Store Op where
  shared :=
    { now := 0, nextToken := 0, handles := fun _ => 0, walks := fun _ => 0
      reason := fun _ => none, deadline := fun _ => none
      waiters := fun _ => [], children := fun _ => [], nextFuture := 0, futures := fun _ => blank
      scheduled := [] }
  program := fun _ => []

/-! ## What the calls made -/

/-- The parents of the token a call makes, and the deadline its caller asks for. -/
def Call.makes : Call → List (List TokenId × Option Instant)
  | .token deadline => [([], deadline)]
  | .childToken parent => [([parent], none)]
  | .childTokenWithDeadline parent deadline => [([parent], deadline)]
  | .linked parents => [(parents, none)]
  | _ => []

/-- The tokens the calls made, in the order of their numbers. -/
def made (calls : List Call) : List (List TokenId × Option Instant) := calls.flatMap Call.makes

/-- The call that made `child` names `parent`. -/
def Derived (calls : List Call) (parent child : TokenId) : Prop :=
  ∃ m, (made calls)[child]? = some m ∧ parent ∈ m.1

/-- Someone asked to cancel the token. -/
def Asked (calls : List Call) (token : TokenId) : Prop :=
  .cancel token ∈ calls ∨ .cancelDueToDeadline token ∈ calls

/-- The token a call makes a future for. -/
def Call.awaits : Call → List TokenId
  | .cancelled awaited => [awaited]
  | _ => []

/-- The tokens of the futures, in the order of their numbers. -/
def awaited (calls : List Call) : List TokenId := calls.flatMap Call.awaits

/-- A poll of a future leaves its waker, a drop leaves none. -/
def Call.leaves (future : FutureId) (last : Option Waker) : Call → Option Waker
  | .poll polled waker => if polled = future then some waker else last
  | .drop dropped => if dropped = future then none else last
  | _ => last

/-- The waker of the last poll of a future that was not dropped since. -/
def lastPoll (future : FutureId) (calls : List Call) : Option Waker :=
  calls.foldl (Call.leaves future) none

end Plenora.Core.Cancellation
