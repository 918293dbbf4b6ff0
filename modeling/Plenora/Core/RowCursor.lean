import Plenora.Core.RowDiagnostics

/-!
# The place of a row-scoped writer in its input

A writer is asked for the rows of its input by their index, and the input comes in batches.  The
writer keeps the batch the last row came from and the index of its first row.  What is asked for
past the current batch makes it take the next batches; each writer accepts a batch its own way.
What a writer asks for a row is noted beside its world.

    Writes w accept statements writer → Attributes statements writer          (Writes.attributes)
-/

namespace Plenora.Core.RowCursor

open Plenora.Lib Plenora.Lib.Call Plenora.Core.RowDiagnostics

variable {ω ς ρ τ : Type}

/-! ## State -/

structure Batch (ς ρ : Type) where
  schema : ς
  rows : List ρ

/-- What the input answers next, the current batch and the index of its first row.  `world` is the
session, the budget and the rest of what a writer reaches. -/
structure Cursor (ω ς ρ : Type) where
  world : ω
  input : List (Result (Batch ς ρ))
  batch : Option (Batch ς ρ)
  batchStart : Nat
  applied : Nat

def Cursor.new (world : ω) (input : List (Result (Batch ς ρ))) : Cursor ω ς ρ :=
  ⟨world, input, none, 0, 0⟩

/-- How a writer words its failures. -/
structure Wording where
  rows : DatabaseError
  overflow : DatabaseError
  passed : DatabaseError
  offset : DatabaseError
  short : DatabaseError
  extra : DatabaseError
  appliedOverflow : DatabaseError
  missing : DatabaseError
  provider : DatabaseError → DatabaseError

section Positions

variable (w : Wording)

def batchRows (batch : Batch ς ρ) : Result Nat :=
  if batch.rows.length < 2 ^ 64 then .ok batch.rows.length else .error w.rows

def checkedBatchEnd (batchStart rows : Nat) : Result Nat :=
  okOr (checkedAdd 64 batchStart rows) w.overflow

/-- The index behind a batch. -/
def batchEnd (batchStart : Nat) (batch : Batch ς ρ) : Result Nat := do
  let rows ← batchRows w batch
  checkedBatchEnd w batchStart rows

/-- The offset of a row in the current batch; a batch that ends before it is left. -/
def within (sourceIndex : Nat) (s : Cursor ω ς ρ) : Result (Option Nat) × Cursor ω ς ρ :=
  match s.batch with
  | none => (.ok none, s)
  | some batch =>
    match batchEnd w s.batchStart batch with
    | .error e => (.error e, s)
    | .ok stop =>
      if sourceIndex < stop then
        if sourceIndex < s.batchStart then (.error w.passed, s)
        else if sourceIndex - s.batchStart < 2 ^ 64 then (.ok (some (sourceIndex - s.batchStart)), s)
        else (.error w.offset, s)
      else (.ok none, { s with batchStart := stop, batch := none })

variable (accept : Batch ς ρ → ω → Result Unit × ω)

/-- A row of the current batch, or what comes of the next answer of the input. -/
def orNext (input : List (Result (Batch ς ρ))) (next : Cursor ω ς ρ → Result Nat × Cursor ω ς ρ) :
    Result (Option Nat) × Cursor ω ς ρ → Result Nat × Cursor ω ς ρ
  | (.error e, s) => (.error e, { s with input := input })
  | (.ok (some offset), s) => (.ok offset, { s with input := input })
  | (.ok none, s) => next s

/-- The loop of `locate`, over what the input still answers. -/
def locateFrom (sourceIndex : Nat) :
    List (Result (Batch ς ρ)) → Cursor ω ς ρ → Result Nat × Cursor ω ς ρ
  | [], s => orNext [] (fun s => (.error w.short, { s with input := [] })) (within w sourceIndex s)
  | .error e :: rest, s =>
    orNext (.error e :: rest) (fun s => (.error (w.provider e), { s with input := rest }))
      (within w sourceIndex s)
  | .ok batch :: rest, s =>
    orNext (.ok batch :: rest)
      (fun s =>
        match accept batch s.world with
        | (.error e, world) => (.error e, { s with input := rest, world := world })
        | (.ok (), world) =>
          locateFrom sourceIndex rest
            { s with world := world, batch := if batch.rows = [] then none else some batch })
      (within w sourceIndex s)

/-- The offset of a row in the batch that is then the current one. -/
def locate (sourceIndex : Nat) : Call DatabaseError (Cursor ω ς ρ) Nat :=
  ExceptT.mk fun s => locateFrom w accept sourceIndex s.input s

/-- What is left of the input must hold no row. -/
def drain : List (Result (Batch ς ρ)) → Result Unit × List (Result (Batch ς ρ))
  | [] => (.ok (), [])
  | .error e :: rest => (.error (w.provider e), rest)
  | .ok batch :: rest => if batch.rows = [] then drain rest else (.error w.extra, rest)

/-- The current batch must end with the rows applied. -/
def consumed (s : Cursor ω ς ρ) : Result Unit × Cursor ω ς ρ :=
  match s.batch with
  | none => (.ok (), s)
  | some batch =>
    match batchEnd w s.batchStart batch with
    | .error e => (.error e, { s with batch := none })
    | .ok stop =>
      if stop = s.applied then (.ok (), { s with batch := none, batchStart := stop })
      else (.error w.extra, { s with batch := none })

def finished (s : Cursor ω ς ρ) : Result Unit × Cursor ω ς ρ :=
  match consumed w s with
  | (.error e, s) => (.error e, s)
  | (.ok (), s) => ((drain w s.input).1, { s with input := (drain w s.input).2 })

def finishDeclaredInput : Call DatabaseError (Cursor ω ς ρ) Unit := ExceptT.mk (finished w)

def Cursor.rowAt (offset : Nat) (s : Cursor ω ς ρ) : Option ρ :=
  s.batch.bind (·.rows[offset]?)

/-- The row at an offset; an offset past the batch, which no call has, would panic. -/
def boundRow (offset : Nat) (s : Cursor ω ς ρ) : Result ρ × Cursor ω ς ρ :=
  match s.batch with
  | none => (.error w.missing, s)
  | some _ => (okOr (s.rowAt offset) w.offset, s)

def bindRow (offset : Nat) : Call DatabaseError (Cursor ω ς ρ) ρ := ExceptT.mk (boundRow w offset)

/-- One more applied row. -/
def countApplied : Call DatabaseError (Cursor ω ς ρ) Unit := do
  let applied ← read (·.applied)
  let applied ← ofResult (okOr (checkedAdd 64 applied 1) w.appliedOverflow)
  update fun s => { s with applied := applied }

end Positions

/-- A part of the world, over the cursor. -/
def reach {α : Type} (f : ω → Result α × ω) : Call DatabaseError (Cursor ω ς ρ) α :=
  ExceptT.mk fun s => ((f s.world).1, { s with world := (f s.world).2 })

/-- A request, noted behind those made before. -/
def noted {α : Type} (request : τ) (f : ω → α × ω) (world : ω × List τ) : α × (ω × List τ) :=
  ((f world.1).1, ((f world.1).2, world.2 ++ [request]))

/-- What is done without a request for a row. -/
def unnoted {α : Type} (f : ω → α × ω) (world : ω × List τ) : α × (ω × List τ) :=
  ((f world.1).1, ((f world.1).2, world.2))

/-! ## The rows of an input -/

def rowsOf (batches : List (Batch ς ρ)) : List ρ := batches.flatMap (·.rows)

/-- The rows an input still gives. -/
def arriving : List (Result (Batch ς ρ)) → List ρ
  | [] => []
  | .error _ :: rest => arriving rest
  | .ok batch :: rest => batch.rows ++ arriving rest

theorem arriving_ok (batches : List (Batch ς ρ)) : arriving (batches.map .ok) = rowsOf batches := by
  induction batches with
  | nil => rfl
  | cons batch batches ih =>
    show batch.rows ++ arriving (batches.map .ok) = _
    rw [ih]
    rfl

def Cursor.current (s : Cursor ω ς ρ) : List ρ :=
  match s.batch with
  | some batch => batch.rows
  | none => []

/-- The cursor stands before the row `k` of `all`: the row is in the current batch, or the first
one behind it. -/
structure At (all : List ρ) (k : Nat) (input : List (Result (Batch ς ρ))) (s : Cursor ω ς ρ) :
    Prop where
  split : ∃ before, all = before ++ (s.current ++ arriving input) ∧ before.length = s.batchStart
  start : s.batchStart ≤ k
  stop : k ≤ s.batchStart + s.current.length

section Locate

variable {w : Wording} {accept : Batch ς ρ → ω × List τ → Result Unit × (ω × List τ)}
variable {all : List ρ} {k : Nat}

theorem batchEnd_ok {batchStart stop : Nat} {batch : Batch ς ρ}
    (h : batchEnd w batchStart batch = .ok stop) : stop = batchStart + batch.rows.length := by
  unfold batchEnd at h
  obtain ⟨rows, hrows, hend⟩ := bind_eq_ok.1 h
  unfold batchRows at hrows
  split at hrows
  next =>
    cases hrows
    exact (checkedAdd_eq_some.1 (okOr_eq_ok.1 hend)).2
  next => cases hrows

/-- A row that has been located. -/
structure Located (w : Wording) (all : List ρ) (k offset : Nat) (s : Cursor ω ς ρ) : Prop where
  place : At all k s.input s
  inside : k < s.batchStart + s.current.length
  row : ∃ row, s.rowAt offset = some row ∧ all[k]? = some row
  stop : ∃ batch stop, s.batch = some batch ∧ batchEnd w s.batchStart batch = .ok stop

/-- What the current batch answers. -/
theorem within_spec {input : List (Result (Batch ς ρ))} {s s' : Cursor ω ς ρ}
    {r : Result (Option Nat)} (h : At all k input s) (hwithin : within w k s = (r, s')) :
    s'.world = s.world ∧ s'.applied = s.applied ∧
      (∀ offset, r = .ok (some offset) →
        Located w all k offset { s' with input := input }) ∧
      (r = .ok none → At all k input s' ∧ s'.batch = none) := by
  unfold within at hwithin
  split at hwithin
  next hbatch =>
    cases hwithin
    exact ⟨rfl, rfl, fun _ heq => (by cases heq), fun _ => ⟨h, hbatch⟩⟩
  next batch hbatch =>
    have hcurrent : s.current = batch.rows := by rw [Cursor.current, hbatch]
    split at hwithin
    next =>
      cases hwithin
      exact ⟨rfl, rfl, fun _ heq => (by cases heq), fun heq => (by cases heq)⟩
    next stop hend =>
      have hstop := batchEnd_ok hend
      obtain ⟨before, hall, hbefore⟩ := h.split
      split at hwithin
      next hlt =>
        split at hwithin
        next =>
          cases hwithin
          exact ⟨rfl, rfl, fun _ heq => (by cases heq), fun heq => (by cases heq)⟩
        next hge =>
        split at hwithin
        next =>
          cases hwithin
          refine ⟨rfl, rfl, fun offset heq => ?_, fun heq => by cases heq⟩
          cases heq
          have hoffset : k - s.batchStart < batch.rows.length := by omega
          have hinside : k < s.batchStart + s.current.length := by
            rw [hcurrent]
            omega
          refine ⟨⟨⟨before, hall, hbefore⟩, h.start, h.stop⟩, hinside,
            ⟨batch.rows[k - s.batchStart], ?_, ?_⟩, ⟨batch, stop, hbatch, hend⟩⟩
          · rw [Cursor.rowAt, hbatch]
            exact List.getElem?_eq_getElem hoffset
          rw [hall, hcurrent, List.getElem?_append_right (by omega), hbefore,
            List.getElem?_append_left hoffset, List.getElem?_eq_getElem hoffset]
        next =>
          cases hwithin
          exact ⟨rfl, rfl, fun _ heq => (by cases heq), fun heq => (by cases heq)⟩
      next hge =>
        cases hwithin
        refine ⟨rfl, rfl, fun _ heq => (by cases heq), fun _ => ⟨⟨⟨before ++ batch.rows, ?_, ?_⟩,
          ?_, ?_⟩, rfl⟩⟩
        · rw [hall, hcurrent]
          simp [Cursor.current]
        · rw [List.length_append, hbefore, hstop]
        · exact Nat.not_lt.1 hge
        · have := h.stop
          rw [hcurrent] at this
          exact Nat.le_trans this (by simp [hstop])

/-- What a located row has, whatever the next answer of the input is. -/
structure Reached (w : Wording) (all : List ρ) (k : Nat) (input : List (Result (Batch ς ρ)))
    (s s' : Cursor (ω × List τ) ς ρ) (r : Result Nat) : Prop where
  quiet : s'.world.2 = s.world.2
  applied : s'.applied = s.applied
  input : s'.input <:+ input
  located : ∀ offset, r = .ok offset → Located w all k offset s'

theorem orNext_spec {input : List (Result (Batch ς ρ))} {s s' : Cursor (ω × List τ) ς ρ}
    {r : Result Nat} {next : Cursor (ω × List τ) ς ρ → Result Nat × Cursor (ω × List τ) ς ρ}
    (h : At all k input s)
    (hnext : ∀ s₁, At all k input s₁ → s₁.batch = none →
      Reached w all k input s₁ (next s₁).2 (next s₁).1)
    (hlocate : orNext input next (within w k s) = (r, s')) : Reached w all k input s s' r := by
  rcases hwithin : within w k s with ⟨r₁, s₁⟩
  obtain ⟨hworld, happlied, hlocated, hnone⟩ := within_spec h hwithin
  have hquiet : s₁.world.2 = s.world.2 := congrArg Prod.snd hworld
  rw [hwithin] at hlocate
  rcases r₁ with e | _ | offset
  · cases hlocate
    exact ⟨hquiet, happlied, List.suffix_refl _, fun _ heq => by cases heq⟩
  · obtain ⟨hat, hbatch⟩ := hnone rfl
    have hreached := hnext s₁ hat hbatch
    have hresult : next s₁ = (r, s') := hlocate
    rw [hresult] at hreached
    exact ⟨hreached.quiet.trans hquiet, hreached.applied.trans happlied, hreached.input,
      hreached.located⟩
  · cases hlocate
    refine ⟨hquiet, happlied, List.suffix_refl _, fun offset' heq => ?_⟩
    cases heq
    exact hlocated offset rfl

/-- The cursor has taken the next batch, past its last one. -/
theorem At.take {batch : Batch ς ρ} {rest : List (Result (Batch ς ρ))} {s : Cursor ω ς ρ}
    (h : At all k (.ok batch :: rest) s) (hbatch : s.batch = none) (world : ω) :
    At all k rest { s with
      world := world, batch := if batch.rows = [] then none else some batch } := by
  have hcurrent : s.current = [] := by rw [Cursor.current, hbatch]
  have htaken : ({ s with world := world, batch := if batch.rows = [] then none else some batch } :
      Cursor ω ς ρ).current = batch.rows := by
    by_cases hempty : batch.rows = []
    · simp [Cursor.current, hempty]
    · simp [Cursor.current, hempty]
  obtain ⟨before, hall, hbefore⟩ := h.split
  have hstop := h.stop
  rw [hcurrent, List.length_nil] at hstop
  refine ⟨⟨before, ?_, hbefore⟩, h.start, Nat.le_trans hstop (Nat.le_add_right _ _)⟩
  rw [htaken, hall, hcurrent]
  rfl

/-- **What is located is the row at that position of the input.** -/
theorem locateFrom_spec (hquiet : ∀ batch world, (accept batch world).2.2 = world.2)
    {input : List (Result (Batch ς ρ))} {s s' : Cursor (ω × List τ) ς ρ} {r : Result Nat}
    (h : At all k input s) (hlocate : locateFrom w accept k input s = (r, s')) :
    Reached w all k input s s' r := by
  induction input generalizing s s' r with
  | nil =>
    exact orNext_spec h (fun s₁ _ _ => ⟨rfl, rfl, List.suffix_refl _, fun _ heq => by cases heq⟩)
      hlocate
  | cons answer rest ih =>
    cases answer with
    | error e =>
      exact orNext_spec h
        (fun s₁ _ _ => ⟨rfl, rfl, List.suffix_cons _ _, fun _ heq => by cases heq⟩) hlocate
    | ok batch =>
      refine orNext_spec h (fun s₁ hat hnone => ?_) hlocate
      have hworld := hquiet batch s₁.world
      rcases haccept : accept batch s₁.world with ⟨e | ⟨⟩, world⟩ <;> rw [haccept] at hworld
      · exact ⟨hworld, rfl, List.suffix_cons _ _, fun _ heq => by cases heq⟩
      · have hreached := ih (hat.take hnone world) rfl
        exact ⟨hreached.quiet.trans hworld, hreached.applied,
          hreached.input.trans (List.suffix_cons _ _), hreached.located⟩

end Locate

/-! ## Runs -/

/-- The calls `0, 1, ..., k - 1` were made one after the other, and each was answered. -/
inductive Called {σ : Type} (writer : RowScopedWriter σ) (s₀ : σ) :
    Nat → σ → List RowApplication → Prop where
  | start : Called writer s₀ 0 s₀ []
  | call {k : Nat} {s s' : σ} {answers : List RowApplication} {a : RowApplication} :
    Called writer s₀ k s answers → (writer.applyRow k).outcome s = (.ok a, s') →
    Called writer s₀ (k + 1) s' (answers ++ [a])

section Attribution

variable (statements : ρ → Result (List τ))

/-- These requests were made for the row: a part of its statements, in their order, or all of them
once it is applied. -/
def Sent (row : ρ) (a : RowApplication) (block : List τ) : Prop :=
  ∃ whole, statements row = .ok whole ∧ block <+: whole ∧ (a = .applied → block = whole)

/-- These requests were made, if any, for the row. -/
def PartOf (row : Option ρ) (block : List τ) : Prop :=
  block = [] ∨ ∃ r ∈ row, ∃ whole, statements r = .ok whole ∧ block <+: whole

/-- The statements of the rows of the input are sent row by row, none is skipped, doubled or moved,
and the declared input ends where the rows end. -/
structure Attributes (writer : RowScopedWriter (Cursor (ω × List τ) ς ρ)) : Prop where
  /-- Each call that was answered sent the statements of the row at its position. -/
  rows : ∀ world batches k s answers,
    Called writer (.new (world, []) (batches.map .ok)) k s answers →
      ∃ sent : List (RowApplication × List τ), sent.map Prod.fst = answers ∧
        s.world.2 = sent.flatMap Prod.snd ∧
        List.Forall₂ (fun row call => Sent statements row call.1 call.2)
          ((rowsOf batches).take k) sent
  /-- The next call sends what belongs to the row at its position, or nothing. -/
  next : ∀ world batches k s answers,
    Called writer (.new (world, []) (batches.map .ok)) k s answers →
      ∃ block, ((writer.applyRow k).outcome s).2.world.2 = s.world.2 ++ block ∧
        PartOf statements (rowsOf batches)[k]? block
  /-- Past the last row it fails and sends nothing. -/
  past : ∀ world batches k s answers,
    Called writer (.new (world, []) (batches.map .ok)) k s answers → (rowsOf batches).length ≤ k →
      ∃ e, ((writer.applyRow k).outcome s).1 = .error e ∧
        ((writer.applyRow k).outcome s).2.world.2 = s.world.2
  /-- After `n` applied rows the input is finished exactly when it has `n` rows. -/
  finish : ∀ world batches n s,
    Called writer (.new (world, []) (batches.map .ok)) n s (List.replicate n .applied) →
      ((writer.finishDeclaredInput.outcome s).1 = .ok () ↔ (rowsOf batches).length = n)

/-- What follows `locate` in `apply_row`: the statements sent are those of the row, and the place
stays. -/
structure Settles (offset : Nat) (s : Cursor (ω × List τ) ς ρ) (r : Result RowApplication)
    (s' : Cursor (ω × List τ) ς ρ) : Prop where
  sent : ∃ block, s'.world.2 = s.world.2 ++ block ∧ PartOf statements (s.rowAt offset) block ∧
    ∀ a, r = .ok a → ∃ row, s.rowAt offset = some row ∧ Sent statements row a block
  answered : ∀ a, r = .ok a → s'.batch = s.batch ∧ s'.batchStart = s.batchStart ∧
    s'.input = s.input ∧ (a = .applied → s'.applied = s.applied + 1)

/-- The calls of a writer are `locate` and what it does with the row, and its end is that of the
position. -/
structure Writes (w : Wording) (accept : Batch ς ρ → ω × List τ → Result Unit × (ω × List τ))
    (writer : RowScopedWriter (Cursor (ω × List τ) ς ρ)) : Prop where
  quiet : ∀ batch world, (accept batch world).2.2 = world.2
  apply : ∃ settle : Nat → Call DatabaseError (Cursor (ω × List τ) ς ρ) RowApplication,
    (∀ k, writer.applyRow k = locate w accept k >>= settle) ∧ ∀ offset s,
      Settles statements offset s ((settle offset).outcome s).1 ((settle offset).outcome s).2
  finish : writer.finishDeclaredInput = finishDeclaredInput w

end Attribution

section Runs

variable {w : Wording} {accept : Batch ς ρ → ω × List τ → Result Unit × (ω × List τ)}
variable {statements : ρ → Result (List τ)} {writer : RowScopedWriter (Cursor (ω × List τ) ς ρ)}
variable {all : List ρ} {k : Nat}

/-- One call, from the place before its row. -/
theorem Writes.call (h : Writes statements w accept writer) {s s' : Cursor (ω × List τ) ς ρ}
    {r : Result RowApplication} (hat : At all k s.input s)
    (hcall : (writer.applyRow k).outcome s = (r, s')) :
    ∃ block, s'.world.2 = s.world.2 ++ block ∧ PartOf statements all[k]? block ∧
    ∀ a, r = .ok a → (∃ row, all[k]? = some row ∧ Sent statements row a block) ∧
      At all (k + 1) s'.input s' ∧ s'.input <:+ s.input ∧ (∃ batch stop, s'.batch = some batch ∧
        batchEnd w s'.batchStart batch = .ok stop) ∧
      (a = .applied → s'.applied = s.applied + 1) := by
  obtain ⟨settle, heq, hsettle⟩ := h.apply
  rw [heq, outcome_bind] at hcall
  rcases hlocate : (locate w accept k).outcome s with ⟨e | offset, s₁⟩
  · have hreached := locateFrom_spec h.quiet hat
      (show locateFrom w accept k s.input s = _ from hlocate)
    rw [hlocate] at hcall
    cases hcall
    exact ⟨[], by rw [hreached.quiet, List.append_nil], .inl rfl, fun _ heq => by cases heq⟩
  · have hreached := locateFrom_spec h.quiet hat
      (show locateFrom w accept k s.input s = _ from hlocate)
    rw [hlocate] at hcall
    have hsettles := hsettle offset s₁
    rw [show (settle offset).outcome s₁ = (r, s') from hcall] at hsettles
    obtain ⟨hplace, hinside, ⟨row, hrow, hall⟩, hstop⟩ := hreached.located offset rfl
    obtain ⟨block, hblock, hpart, hsent⟩ := hsettles.sent
    rw [hrow] at hpart hsent
    refine ⟨block, by rw [hblock, hreached.quiet], by rwa [hall], fun a ha => ?_⟩
    obtain ⟨hsame, hstart, hinput, happlied⟩ := hsettles.answered a ha
    have hcurrent : s'.current = s₁.current := by unfold Cursor.current; rw [hsame]
    refine ⟨?_, ⟨?_, ?_, ?_⟩, hinput ▸ hreached.input, ?_, fun heq => (happlied heq).trans
      (congrArg (· + 1) hreached.applied)⟩
    · rw [hall]
      exact hsent a ha
    · rw [hcurrent, hstart, hinput]
      exact hplace.split
    · rw [hstart]
      exact Nat.le_succ_of_le hplace.start
    · rw [hstart, hcurrent]
      exact hinside
    · rw [hstart, hsame]
      exact hstop

/-- What holds after `k` answered calls. -/
structure After (statements : ρ → Result (List τ)) (w : Wording) (all : List ρ) (k : Nat)
    (answers : List RowApplication) (s : Cursor (ω × List τ) ς ρ) : Prop where
  place : At all k s.input s
  input : ∀ answer ∈ s.input, ∃ batch, answer = .ok batch
  sent : ∃ sent : List (RowApplication × List τ), sent.map Prod.fst = answers ∧
    s.world.2 = sent.flatMap Prod.snd ∧
    List.Forall₂ (fun row call => Sent statements row call.1 call.2) (all.take k) sent
  stop : ∀ batch, s.batch = some batch → ∃ stop, batchEnd w s.batchStart batch = .ok stop
  applied : (∀ a ∈ answers, a = .applied) → s.applied = k

/-- **The place and the statements sent after any calls.** -/
theorem Writes.after (h : Writes statements w accept writer) {world : ω}
    {batches : List (Batch ς ρ)} {s : Cursor (ω × List τ) ς ρ} {answers : List RowApplication}
    (hcalled : Called writer (.new (world, []) (batches.map .ok)) k s answers) :
    After statements w (rowsOf batches) k answers s := by
  induction hcalled with
  | start =>
    refine ⟨⟨⟨[], (arriving_ok batches).symm, rfl⟩, Nat.le_refl _, Nat.zero_le _⟩,
      fun answer hanswer => ?_, ⟨[], rfl, rfl, .nil⟩, fun _ heq => (by cases heq), fun _ => rfl⟩
    obtain ⟨batch, -, rfl⟩ := List.mem_map.1 hanswer
    exact ⟨batch, rfl⟩
  | @call _ _ _ _ a _ hcall ih =>
    obtain ⟨block, hblock, -, hanswered⟩ := h.call ih.place hcall
    obtain ⟨⟨row, hrow, hsent⟩, hat, hinput, ⟨batch, stop, hbatch, hstop⟩, happlied⟩ :=
      hanswered _ rfl
    obtain ⟨sent, hfst, hsnd, hrows⟩ := ih.sent
    refine ⟨hat, fun answer hanswer => ih.input answer (hinput.subset hanswer),
      ⟨sent ++ [(a, block)], ?_, ?_, ?_⟩, fun batch' hbatch' => ?_, fun hanswers => ?_⟩
    · rw [List.map_append, hfst]
      rfl
    · rw [hblock, hsnd, List.flatMap_append, List.flatMap_singleton]
    · rw [List.take_add_one, hrow]
      exact List.rel_append hrows (.cons hsent .nil)
    · cases hbatch.symm.trans hbatch'
      exact ⟨stop, hstop⟩
    · rw [happlied (hanswers _ (by simp)), ih.applied fun a ha => hanswers a (by simp [ha])]

theorem drain_ok {input : List (Result (Batch ς ρ))}
    (h : ∀ answer ∈ input, ∃ batch, answer = .ok batch) :
    (drain w input).1 = .ok () ↔ arriving input = [] := by
  induction input with
  | nil => exact iff_of_true rfl rfl
  | cons answer rest ih =>
    obtain ⟨⟨batch, rfl⟩, hrest⟩ := List.forall_mem_cons.1 h
    rw [drain, arriving]
    by_cases hempty : batch.rows = []
    · rw [if_pos hempty, ih hrest, hempty, List.nil_append]
    · rw [if_neg hempty]
      exact iff_of_false (by simp) fun hall => hempty (List.append_eq_nil_iff.1 hall).1

/-- **After as many applied rows the input is finished exactly when it has no more.** -/
theorem finish_iff {n : Nat} {s : Cursor (ω × List τ) ς ρ} {answers : List RowApplication}
    (h : After statements w all n answers s) (happlied : s.applied = n) :
    ((finishDeclaredInput w).outcome s).1 = .ok () ↔ all.length = n := by
  obtain ⟨before, hall, hbefore⟩ := h.place.split
  have hlength : all.length = s.batchStart + s.current.length + (arriving s.input).length := by
    rw [hall, List.length_append, List.length_append, hbefore]
    omega
  have hplace := h.place.stop
  have hdrain : (drain w s.input).1 = .ok () ↔ (arriving s.input).length = 0 :=
    (drain_ok h.input).trans List.length_eq_zero_iff.symm
  show (finished w s).1 = .ok () ↔ _
  unfold finished consumed
  cases hbatch : s.batch with
  | none =>
    have hcurrent : s.current = [] := by rw [Cursor.current, hbatch]
    have hstart := h.place.start
    rw [hcurrent, List.length_nil] at hlength hplace
    refine hdrain.trans ?_
    omega
  | some batch =>
    obtain ⟨stop, hstop⟩ := h.stop batch hbatch
    have hend := batchEnd_ok hstop
    have hcurrent : s.current = batch.rows := by rw [Cursor.current, hbatch]
    rw [hcurrent] at hlength hplace
    rw [happlied]
    dsimp only
    rw [hstop]
    dsimp only
    by_cases hn : stop = n
    · rw [if_pos hn]
      refine hdrain.trans ?_
      omega
    · rw [if_neg hn]
      exact iff_of_false (by simp) (by omega)

/-- **A writer that locates its rows attributes them.** -/
theorem Writes.attributes (h : Writes statements w accept writer) :
    Attributes statements writer where
  rows _ _ _ _ _ hcalled := (h.after hcalled).sent
  next _ _ _ _ _ hcalled := by
    obtain ⟨block, hblock, hpart, -⟩ := h.call (h.after hcalled).place rfl
    exact ⟨block, hblock, hpart⟩
  past _ batches k s _ hcalled hpast := by
    obtain ⟨block, hblock, hpart, hanswered⟩ := h.call (h.after hcalled).place
      (show _ = (((writer.applyRow k).outcome s).1, ((writer.applyRow k).outcome s).2) from rfl)
    have hnone : (rowsOf batches)[k]? = none := List.getElem?_eq_none hpast
    rw [hnone] at hpart hanswered
    have hsame : ((writer.applyRow k).outcome s).2.world.2 = s.world.2 := by
      rcases hpart with rfl | ⟨row, hrow, -⟩
      · rw [hblock, List.append_nil]
      · cases hrow
    cases hresult : ((writer.applyRow k).outcome s).1 with
    | error e => exact ⟨e, rfl, hsame⟩
    | ok a =>
      obtain ⟨⟨row, hrow, -⟩, -⟩ := hanswered a hresult
      cases hrow
  finish _ _ n s hcalled := by
    rw [h.finish]
    have hafter := h.after hcalled
    exact finish_iff hafter (hafter.applied fun a ha => (List.mem_replicate.1 ha).2)

end Runs

/-! ## The calls of a writer -/

section Settling

variable {w : Wording} {s₀ : Cursor (ω × List τ) ς ρ} {sent whole : List τ}

/-- A state at the place of another. -/
structure Beside (s₀ s : Cursor ω ς ρ) : Prop where
  batch : s.batch = s₀.batch
  batchStart : s.batchStart = s₀.batchStart
  input : s.input = s₀.input

/-- The same place, with the same rows applied and these requests made since. -/
structure Amid (s₀ : Cursor (ω × List τ) ς ρ) (sent : List τ) (s : Cursor (ω × List τ) ς ρ) :
    Prop where
  place : Beside s₀ s
  applied : s.applied = s₀.applied
  sent : s.world.2 = s₀.world.2 ++ sent

/-- The same place, after a part of the statements; an applied row is counted, after all of them. -/
structure Ended (s₀ : Cursor (ω × List τ) ς ρ) (whole : List τ) (r : Result RowApplication)
    (s : Cursor (ω × List τ) ς ρ) : Prop where
  place : Beside s₀ s
  sent : ∃ block, s.world.2 = s₀.world.2 ++ block ∧ block <+: whole ∧
    (r = .ok .applied → block = whole)
  applied : r = .ok .applied → s.applied = s₀.applied + 1

theorem amid_refl (s : Cursor (ω × List τ) ς ρ) : Amid s [] s :=
  ⟨⟨rfl, rfl, rfl⟩, rfl, (List.append_nil _).symm⟩

/-- A call that is not applied may stop anywhere. -/
theorem ended_of_place {s : Cursor (ω × List τ) ς ρ} {r : Result RowApplication}
    (hplace : Beside s₀ s) (hsent : s.world.2 = s₀.world.2 ++ sent) (hpart : sent <+: whole)
    (hr : r ≠ .ok .applied) : Ended s₀ whole r s :=
  ⟨hplace, ⟨sent, hsent, hpart, fun h => absurd h hr⟩, fun h => absurd h hr⟩

theorem meets_noted {α : Type} (request : τ) (f : ω → Result α × ω) :
    Meets (Amid s₀ sent) (reach (ς := ς) (ρ := ρ) (noted request f))
      fun _ => Amid s₀ (sent ++ [request]) := by
  intro s h
  refine ⟨⟨h.place.batch, h.place.batchStart, h.place.input⟩, h.applied, ?_⟩
  show s.world.2 ++ [request] = _
  rw [h.sent, List.append_assoc]

theorem keeps_unnoted {α : Type} (f : ω → Result α × ω) :
    Keeps (Amid s₀ sent) (reach (ς := ς) (ρ := ρ) (unnoted f)) :=
  fun _ h => ⟨⟨h.place.batch, h.place.batchStart, h.place.input⟩, h.applied, h.sent⟩

/-- A request, and then what ends the call. -/
theorem ended_bind {α : Type} {x : Call DatabaseError (Cursor (ω × List τ) ς ρ) α}
    {f : α → Call DatabaseError (Cursor (ω × List τ) ς ρ) RowApplication} {more : List τ}
    (hx : Meets (Amid s₀ sent) x fun _ => Amid s₀ more) (hpart : more <+: whole)
    (hf : ∀ a, Meets (Amid s₀ more) (f a) (Ended s₀ whole)) :
    Meets (Amid s₀ sent) (x >>= f) (Ended s₀ whole) :=
  Meets.bind hx hf fun _ _ h => ended_of_place h.place h.sent hpart (by simp)

theorem meets_throw (hpart : sent <+: whole) (e : DatabaseError) :
    Meets (Amid s₀ sent) (throw e : Call DatabaseError _ RowApplication) (Ended s₀ whole) :=
  fun _ h => ended_of_place h.place h.sent hpart (by simp)

theorem meets_rejected (hpart : sent <+: whole) (rejection : RowRejection) :
    Meets (Amid s₀ sent) (pure (.rejected rejection)) (Ended s₀ whole) :=
  fun _ h => ended_of_place h.place h.sent hpart (by simp)

theorem outcome_countApplied (s : Cursor ω ς ρ) :
    (countApplied w).outcome s =
      match okOr (checkedAdd 64 s.applied 1) w.appliedOverflow with
      | .error e => (.error e, s)
      | .ok n => (.ok (), { s with applied := n }) := by
  unfold countApplied
  rw [outcome_bind_ok (outcome_read _ s)]
  cases hadd : okOr (checkedAdd 64 s.applied 1) w.appliedOverflow with
  | error e => exact outcome_bind_error (outcome_ofResult _ s) _
  | ok n => exact outcome_bind_ok (outcome_ofResult _ s) _

/-- The place and the requests are kept, and one more row is counted unless the call fails. -/
theorem meets_countApplied : Meets (Amid s₀ sent) (countApplied (ς := ς) (ρ := ρ) w)
    fun r s => Beside s₀ s ∧ s.world.2 = s₀.world.2 ++ sent ∧
      (r = .ok () → s.applied = s₀.applied + 1) := by
  intro s h
  rw [outcome_countApplied]
  cases hadd : okOr (checkedAdd 64 s.applied 1) w.appliedOverflow with
  | error e => exact ⟨h.place, h.sent, fun heq => by cases heq⟩
  | ok n =>
    have hn := (checkedAdd_eq_some.1 (okOr_eq_ok.1 hadd)).2
    exact ⟨⟨h.place.batch, h.place.batchStart, h.place.input⟩, h.sent,
      fun _ => hn.trans (congrArg (· + 1) h.applied)⟩

/-- A row is counted once all its statements are sent. -/
theorem ended_count {f : Unit → Call DatabaseError (Cursor (ω × List τ) ς ρ) RowApplication}
    (hf : ∀ s, Beside s₀ s → s.world.2 = s₀.world.2 ++ whole → s.applied = s₀.applied + 1 →
      Ended s₀ whole ((f ()).outcome s).1 ((f ()).outcome s).2) :
    Meets (Amid s₀ whole) (countApplied w >>= f) (Ended s₀ whole) :=
  Meets.bind meets_countApplied (fun _ s h => hf s h.1 h.2.1 (h.2.2 rfl)) fun _ _ h =>
    ended_of_place h.1 h.2.1 (List.prefix_refl _) (by simp)

theorem ended_applied {s : Cursor (ω × List τ) ς ρ} (hplace : Beside s₀ s)
    (hsent : s.world.2 = s₀.world.2 ++ whole) (happlied : s.applied = s₀.applied + 1) :
    Ended s₀ whole (.ok .applied) s :=
  ⟨hplace, ⟨whole, hsent, List.prefix_refl _, fun _ => rfl⟩, fun _ => happlied⟩

/-- **The statements of a row are sent, and the rest keeps the place.** -/
theorem settles_bindRow {α : Type} {statements : ρ → Result (List τ)} {prepare : ρ → Result α}
    {f : ρ → α → Call DatabaseError (Cursor (ω × List τ) ς ρ) RowApplication}
    (sends : ρ → α → List τ) (hstatements : ∀ row, statements row = (prepare row).map (sends row))
    (hf : ∀ row a s₀, Meets (Amid s₀ []) (f row a) (Ended s₀ (sends row a))) (offset : Nat)
    (s : Cursor (ω × List τ) ς ρ) :
    Settles statements offset s
      ((bindRow w offset >>= fun row => ofResult (prepare row) >>= f row).outcome s).1
      ((bindRow w offset >>= fun row => ofResult (prepare row) >>= f row).outcome s).2 := by
  have hfailed (e : DatabaseError) : Settles statements offset s (.error e) s :=
    ⟨⟨[], (List.append_nil _).symm, .inl rfl, fun _ heq => by cases heq⟩, fun _ heq => by cases heq⟩
  rw [outcome_bind, show (bindRow w offset).outcome s = boundRow w offset s from rfl]
  rcases hbound : boundRow w offset s with ⟨e | row, s'⟩
  · have hsame : s' = s := by
      unfold boundRow at hbound
      split at hbound <;> exact (Prod.mk.inj hbound).2.symm
    rw [hsame]
    exact hfailed e
  · unfold boundRow at hbound
    split at hbound
    next => cases hbound
    next =>
      obtain ⟨hok, rfl⟩ := Prod.mk.inj hbound
      have hrow := okOr_eq_ok.1 hok
      dsimp only
      rw [outcome_bind, outcome_ofResult]
      cases hprepare : prepare row with
      | error e => exact hfailed e
      | ok a =>
        have hwhole : statements row = .ok (sends row a) := by rw [hstatements, hprepare]; rfl
        obtain ⟨hplace, ⟨block, hblock, hpart, hall⟩, happlied⟩ := hf row a s s (amid_refl s)
        exact ⟨⟨block, hblock, .inr ⟨row, hrow, _, hwhole, hpart⟩, fun b hb => ⟨row, hrow, _,
          hwhole, hpart, fun heq => hall (heq ▸ hb)⟩⟩, fun b hb => ⟨hplace.batch,
          hplace.batchStart, hplace.input, fun heq => happlied (heq ▸ hb)⟩⟩

end Settling

end Plenora.Core.RowCursor
