import Plenora.Mysql.BatchStream

/-!
# Every run of a batch stream stays within its budget

What one step on the budget does, what a call does, and from it what holds of every run.

    Safe plan env w.queue (run plan env calls opened w) ∧
      (Suffices … → rows.length ≤ w.ledger.remaining .rows →
        (.ok none ∈ outcomes ↔ rows.length ≠ w.ledger.remaining .rows))        (run_bounded)
-/

namespace Plenora.Mysql.BatchStream

open Plenora.Lib Plenora.Lib.Call Plenora.Core Plenora.Core.Resource

section Steps

variable {plan : Plan} {env : Environment} {w₀ : World}

/-- The budget adds up, now and at every point passed. -/
def Good (plan : Plan) (w : World) : Prop :=
  w.ledger.Conserved plan.limits ∧ ∀ ledger ∈ w.passed, ledger.Conserved plan.limits

/-- The other holders leave the rows alone. -/
def Content (env : Environment) (w : World) : Prop :=
  ∀ clock, env.want clock .rows = w.ledger.others .rows

/-- No row is left. -/
def Exhausted (plan : Plan) (w : World) : Prop :=
  w.ledger.others .rows + w.ledger.committed .rows = plan.limits .rows

abbrev Leases := List (ResourceKind × Nat)

/-- Where a call that started in `w₀` is. -/
structure At (plan : Plan) (env : Environment) (w₀ : World) (leases : Leases)
    (committed : ResourceKind → Nat) (queue : List (Result Row)) (w : World) : Prop where
  good : Good plan w
  content : Content env w₀ → w.ledger.others .rows = w₀.ledger.others .rows
  leases : w.ledger.leases = leases
  committed : w.ledger.committed = committed
  queue : w.queue = queue

variable {leases : Leases} {committed : ResourceKind → Nat} {queue : List (Result Row)}

theorem at_self {w : World} (h : Good plan w) :
    At plan env w w.ledger.leases w.ledger.committed w.queue w :=
  ⟨h, fun _ => rfl, rfl, rfl, rfl⟩

/-- The end of a part of a call: its value with `R`, or a failure that leaves the budget good. -/
def Ends {α : Type} (plan : Plan) (env : Environment) (w₀ : World) (R : α → World → Prop)
    (r : Except Stop α) (w : World) : Prop :=
  match r with
  | .ok a => R a w
  | .error stop => Good plan w ∧ (stop.cause = .rows → Content env w₀ → Exhausted plan w₀)

theorem Meets.next {α β : Type} {P : World → Prop} {x : Call Stop World α}
    {f : α → Call Stop World β} {R : α → World → Prop} {S : β → World → Prop}
    (hx : Meets P x (Ends plan env w₀ R))
    (hf : ∀ a, Meets (R a) (f a) (Ends plan env w₀ S)) :
    Meets P (x >>= f) (Ends plan env w₀ S) :=
  Meets.bind hx hf fun _ _ h => h

theorem ends_pure {α : Type} {P : World → Prop} {R : α → World → Prop} {a : α}
    (h : ∀ w, P w → R a w) : Meets P (pure a : Call Stop World α) (Ends plan env w₀ R) :=
  fun w hw => h w hw

theorem ends_throw {α : Type} {P : World → Prop} {R : α → World → Prop} {stop : Stop}
    (hgood : ∀ w, P w → Good plan w)
    (hrows : ∀ w, P w → stop.cause = .rows → Content env w₀ → Exhausted plan w₀) :
    Meets P (throw stop : Call Stop World α) (Ends plan env w₀ R) :=
  fun w hw => ⟨hgood w hw, hrows w hw⟩

/-- A check that does not touch the budget. -/
theorem ends_ofResult {α : Type} {x : Except Stop α}
    (h : ∀ stop, x = .error stop → stop.cause ≠ .rows) :
    Meets (At plan env w₀ leases committed queue) (ofResult x)
      (Ends plan env w₀ fun _ => At plan env w₀ leases committed queue) := by
  intro w hw
  rw [outcome_ofResult]
  cases hx : x with
  | ok a => exact hw
  | error stop => exact ⟨hw.good, fun hrows => absurd hrows (h stop hx)⟩

theorem mapError_cause {α : Type} {x : Result α} {cause : Cause} {stop : Stop}
    (h : x.mapError (Stop.mk cause) = .error stop) : stop.cause = cause := by
  cases x with
  | ok a => cases h
  | error e =>
    cases h
    rfl

theorem ends_conversion {α : Type} {x : Result α} :
    Meets (At plan env w₀ leases committed queue) (conversion x)
      (Ends plan env w₀ fun _ => At plan env w₀ leases committed queue) := by
  refine ends_ofResult fun stop h => ?_
  rw [mapError_cause h]
  decide

/-! ## Steps on the budget -/

theorem Good.write {w : World} (h : Good plan w) {ledger : Ledger ResourceKind}
    (hledger : ledger.Conserved plan.limits) : Good plan (w.write ledger) :=
  ⟨hledger, List.forall_mem_cons.2 ⟨h.1, h.2⟩⟩

theorem At.interfere {w : World} (h : At plan env w₀ leases committed queue w) :
    At plan env w₀ leases committed queue (w.interfere env) := by
  refine ⟨?_, fun hc => ?_, h.leases, h.committed, h.queue⟩
  · exact h.good.write (h.good.1.interfere _)
  · rw [← h.content hc]
    exact (Ledger.interfere_of_content (by rw [hc, h.content hc])).1

/-- What is left of the rows. -/
theorem At.remaining_rows {w : World} (h : At plan env w₀ leases committed queue w)
    (hleases : leases = []) (hc : Content env w₀) :
    w.ledger.remaining .rows + w₀.ledger.others .rows + committed .rows = plan.limits .rows := by
  have hrows := h.good.1 .rows
  unfold Ledger.held at hrows
  rw [h.leases, hleases, Ledger.total_nil, h.content hc, h.committed] at hrows
  omega

theorem ends_remaining (kind : ResourceKind) :
    Meets (At plan env w₀ leases committed queue) (remaining env kind)
      (Ends plan env w₀ fun amount w => At plan env w₀ leases committed queue w ∧
        amount = w.ledger.remaining kind) :=
  fun _ hw => ⟨hw.interfere, rfl⟩

theorem ends_tryLease (kind : ResourceKind) (amount : Nat) :
    Meets (At plan env w₀ leases committed queue) (tryLease env kind amount)
      (Ends plan env w₀ fun _ => At plan env w₀ ((kind, amount) :: leases) committed queue) := by
  intro w hw
  have hw' := hw.interfere
  show Ends plan env w₀ _ (if amount = 0 then _ else _ : Except Stop Unit × World).1
    (if amount = 0 then _ else _ : Except Stop Unit × World).2
  split_ifs with hzero hle
  · exact ⟨hw.good, fun h => by cases h⟩
  · refine ⟨hw'.good.write (hw'.good.1.take hle), hw'.content, ?_, hw'.committed, hw'.queue⟩
    show (kind, amount) :: (w.interfere env).ledger.leases = _
    rw [hw'.leases]
  · exact ⟨hw'.good, fun h => by cases h⟩

/-- Ending a lease never fails. -/
theorem meets_settle {kind : ResourceKind} {amount used : Nat} (hmem : (kind, amount) ∈ leases)
    (hused : used ≤ amount) :
    Meets (At plan env w₀ leases committed queue) (settle plan env kind amount used)
      fun r w => r = .ok () ∧ At plan env w₀ (leases.erase (kind, amount))
        (Function.update committed kind (committed kind + used)) queue w := by
  intro w hw
  have hw' := hw.interfere
  have hmem' : (kind, amount) ∈ (w.interfere env).ledger.leases := by rwa [hw'.leases]
  have hroom := hw'.good.1.room hmem'
  have hlimit := plan.limits_lt kind
  show (if 18446744073709551616 ≤ (w.interfere env).ledger.remaining kind + (amount - used) then _
      else _ : Except Stop Unit × World).1 = _ ∧ At plan env w₀ _ _ queue
    (if 18446744073709551616 ≤ (w.interfere env).ledger.remaining kind + (amount - used) then _
      else _ : Except Stop Unit × World).2
  rw [if_neg (by omega), if_neg (by omega)]
  refine ⟨rfl, hw'.good.write (hw'.good.1.settle hmem' hused), hw'.content, ?_, ?_, hw'.queue⟩
  · show (w.interfere env).ledger.leases.erase (kind, amount) = _
    rw [hw'.leases]
  · show Function.update (w.interfere env).ledger.committed kind _ = _
    rw [hw'.committed]

theorem ends_settle {kind : ResourceKind} {amount used : Nat} (hmem : (kind, amount) ∈ leases)
    (hused : used ≤ amount) :
    Meets (At plan env w₀ leases committed queue) (settle plan env kind amount used)
      (Ends plan env w₀ fun _ => At plan env w₀ (leases.erase (kind, amount))
        (Function.update committed kind (committed kind + used)) queue) := by
  refine (meets_settle hmem hused).conseq (fun _ h => h) ?_
  rintro r w ⟨rfl, hw⟩
  exact hw

/-- A lease that ends without consumption. -/
theorem ends_release {kind : ResourceKind} {amount : Nat} (hmem : (kind, amount) ∈ leases) :
    Meets (At plan env w₀ leases committed queue) (settle plan env kind amount 0)
      (Ends plan env w₀ fun _ => At plan env w₀ (leases.erase (kind, amount)) committed queue) := by
  have h := @ends_settle plan env w₀ leases committed queue kind amount 0 hmem (Nat.zero_le _)
  rwa [Nat.add_zero, Function.update_eq_self] at h

theorem ends_commitLease {kind : ResourceKind} {amount used : Nat} (hmem : (kind, amount) ∈ leases) :
    Meets (At plan env w₀ leases committed queue) (commitLease plan env kind amount used)
      (Ends plan env w₀ fun _ => At plan env w₀ (leases.erase (kind, amount))
        (Function.update committed kind (committed kind + used)) queue) := by
  unfold commitLease
  split_ifs with hinvalid
  · refine Meets.next (ends_release hmem) fun _ => ends_throw (fun w hw => hw.good) ?_
    intro w _ h
    cases h
  · exact ends_settle hmem (by omega)

theorem meets_dropLeases (leases : Leases) :
    Meets (At plan env w₀ leases committed queue) (dropLeases plan env leases)
      fun r w => r = .ok () ∧ At plan env w₀ [] committed queue w := by
  induction leases with
  | nil => exact fun w hw => ⟨rfl, hw⟩
  | cons lease leases ih =>
    obtain ⟨kind, amount⟩ := lease
    have hmem : (kind, amount) ∈ (kind, amount) :: leases := List.mem_cons_self ..
    have hsettle := @meets_settle plan env w₀ _ committed queue kind amount 0 hmem (Nat.zero_le _)
    rw [List.erase_cons_head, Nat.add_zero, Function.update_eq_self] at hsettle
    refine Meets.bind (R := fun r w => (∃ x, r = .ok x) ∧ At plan env w₀ leases committed queue w)
      (Meets.attempt (hsettle.conseq (fun _ h => h) fun r w h => ⟨⟨r, rfl⟩, h.2⟩)) (fun a => ?_) ?_
    · exact ih.conseq (fun w h => h.2) fun _ _ h => h
    · rintro e w ⟨⟨x, hx⟩, -⟩
      cases hx

theorem meets_dropAll :
    Meets (At plan env w₀ leases committed queue) (dropAll plan env)
      fun r w => r = .ok () ∧ At plan env w₀ [] committed queue w := by
  intro w hw
  have h := meets_dropLeases leases w hw
  rw [← hw.leases] at h
  exact h

/-! ## The reservation -/

/-- The leases of a reservation, the last one first. -/
def reservationLeases (plan : Plan) (reservation : ReadBatchReservation) : Leases :=
  (if plan.spatial then [(.geometryComponents, reservation.componentLimit)] else []) ++
    [(.outputBytes, reservation.byteLimit), (.memoryBytes, reservation.byteLimit),
      (.rows, reservation.rowLimit)]

theorem ends_reserve {rows bytes components : Nat} :
    Meets (At plan env w₀ [] committed queue) (reserve plan env rows bytes components)
      (Ends plan env w₀ fun reservation w =>
        At plan env w₀ (reservationLeases plan reservation) committed queue w ∧
          reservation.rowLimit = rows) := by
  unfold reserve
  refine Meets.next (ends_tryLease .rows rows) fun _ => ?_
  refine Meets.next (ends_tryLease .memoryBytes bytes) fun _ => ?_
  refine Meets.next (ends_tryLease .outputBytes bytes) fun _ => ?_
  refine Meets.next (R := fun _ => At plan env w₀
    (reservationLeases plan ⟨rows, bytes, components⟩) committed queue) ?_ fun _ =>
      ends_pure fun w hw => ⟨hw, rfl⟩
  unfold leaseComponents reservationLeases
  split_ifs
  · exact ends_tryLease .geometryComponents components
  · exact ends_pure fun w hw => hw

theorem ends_look {P : World → Prop} {kind : ResourceKind}
    (hP : ∀ w, P w → P (w.interfere env)) :
    Meets P (remaining env kind) (Ends plan env w₀ fun _ => P) :=
  fun w hw => hP w hw

/-- A reservation is of at least a row, and fails for want of a row only where none is left. -/
theorem ends_acquire :
    Meets (At plan env w₀ [] w₀.ledger.committed queue) (acquire plan env)
      (Ends plan env w₀ fun reservation w =>
        At plan env w₀ (reservationLeases plan reservation) w₀.ledger.committed queue w ∧
          0 < reservation.rowLimit ∧ (Content env w₀ → ¬ Exhausted plan w₀)) := by
  have hpos := plan.batchRows_pos
  unfold acquire
  -- what the first look at the rows says
  let Seen (rows : Nat) (w : World) : Prop := At plan env w₀ [] w₀.ledger.committed queue w ∧
    (Content env w₀ → (rows = 0 ↔ Exhausted plan w₀))
  have hkeeps : ∀ rows w, Seen rows w → Seen rows (w.interfere env) :=
    fun rows w h => ⟨h.1.interfere, h.2⟩
  refine Meets.next (R := Seen) ?_ fun rows => ?_
  · refine (ends_remaining .rows).conseq (fun _ h => h) fun r w h => ?_
    cases r with
    | error stop => exact h
    | ok rows =>
      obtain ⟨hw, rfl⟩ := h
      refine ⟨hw, fun hc => ?_⟩
      have hrows := hw.remaining_rows rfl hc
      unfold Exhausted
      omega
  refine Meets.next (ends_look (hkeeps rows)) fun memory => ?_
  refine Meets.next (ends_look (hkeeps rows)) fun output => ?_
  split_ifs with hrows hbytes
  · refine ends_throw (fun w h => h.1.good) fun w h _ hc => (h.2 hc).1 ?_
    omega
  · exact ends_throw (fun w h => h.1.good) fun w h hcause => by cases hcause
  · refine Meets.next (R := fun _ => Seen rows) ?_ fun components => ?_
    · unfold componentQuota
      split_ifs
      · exact ends_look (hkeeps rows)
      · exact ends_pure fun w hw => hw
    split_ifs with hcomponents
    · exact ends_throw (fun w h => h.1.good) fun w h hcause => by cases hcause
    · intro w hw
      refine Meets.conseq ends_reserve (fun _ h => h) (fun r w' h => ?_) w hw.1
      cases r with
      | error stop => exact h
      | ok reservation =>
        refine ⟨h.1, by rw [h.2]; omega, fun hc hexhausted => ?_⟩
        have := (hw.2 hc).2 hexhausted
        omega

/-- The last lease of a reservation, of the components. -/
theorem ends_commitComponents {limit components : Nat} :
    Meets (At plan env w₀ (if plan.spatial then [(.geometryComponents, limit)] else []) committed
        queue)
      (commitComponents plan env limit components)
      (Ends plan env w₀ fun _ w => ∃ committed', At plan env w₀ [] committed' queue w ∧
        committed' .rows = committed .rows) := by
  unfold commitComponents
  by_cases hspatial : plan.spatial
  · rw [if_pos hspatial, if_pos hspatial, if_pos hspatial]
    split_ifs
    · refine (ends_commitLease (List.mem_singleton_self _)).conseq (fun _ h => h) fun r w h => ?_
      cases r with
      | error stop => exact h
      | ok _ =>
        have hw : At plan env w₀ _ _ queue w := h
        rw [List.erase_cons_head] at hw
        exact ⟨_, hw, Function.update_of_ne (by decide) _ _⟩
    · refine (ends_release (List.mem_singleton_self _)).conseq (fun _ h => h) fun r w h => ?_
      cases r with
      | error stop => exact h
      | ok _ =>
        refine ⟨committed, ?_, rfl⟩
        rwa [List.erase_cons_head] at h
  · rw [if_neg hspatial, if_neg hspatial, if_neg hspatial]
    split_ifs
    · exact ends_throw (fun w h => h.good) fun w h hcause => by cases hcause
    · exact ends_pure fun w hw => ⟨committed, hw, rfl⟩

/-- A commit ends the leases of the reservation and consumes the rows. -/
theorem ends_commit {reservation : ReadBatchReservation} {rows bytes components : Nat} :
    Meets (At plan env w₀ (reservationLeases plan reservation) committed queue)
      (commit plan env reservation rows bytes components)
      (Ends plan env w₀ fun _ w => ∃ committed', At plan env w₀ [] committed' queue w ∧
        committed' .rows = committed .rows + rows) := by
  unfold commit
  split_ifs with hbytes
  · exact ends_throw (fun w h => h.good) fun w h hcause => by cases hcause
  unfold reservationLeases
  generalize hgeometry : (if plan.spatial then
    [(ResourceKind.geometryComponents, reservation.componentLimit)] else []) = geometry
  have hkind : ∀ lease ∈ geometry, lease.1 = .geometryComponents := by
    rw [← hgeometry]
    split_ifs
    · simp
    · simp
  have herase : ∀ (kind : ResourceKind) (amount : Nat) (rest : Leases),
      kind ≠ .geometryComponents →
        (geometry ++ rest).erase (kind, amount) = geometry ++ rest.erase (kind, amount) := by
    intro kind amount rest hne
    exact List.erase_append_right _ fun hmem => hne (hkind _ hmem)
  refine Meets.next (ends_commitLease (List.mem_append_right _ (by simp))) fun _ => ?_
  rw [herase _ _ _ (by decide)]
  refine Meets.next (ends_commitLease (List.mem_append_right _ (by simp))) fun _ => ?_
  rw [herase _ _ _ (by decide)]
  refine Meets.next (ends_commitLease (List.mem_append_right _ (by simp))) fun _ => ?_
  rw [herase _ _ _ (by decide)]
  have hnil : geometry ++ (((([(ResourceKind.outputBytes, reservation.byteLimit),
      (.memoryBytes, reservation.byteLimit), (.rows, reservation.rowLimit)] : Leases).erase
        (.rows, reservation.rowLimit)).erase (.memoryBytes, reservation.byteLimit)).erase
          (.outputBytes, reservation.byteLimit)) = geometry := by
    simp
  rw [hnil, ← hgeometry]
  refine ends_commitComponents.conseq (fun _ h => h) fun r w h => ?_
  cases r with
  | error stop => exact h
  | ok _ =>
    obtain ⟨committed', hw, hrows⟩ := h
    refine ⟨committed', hw, ?_⟩
    rw [hrows, Function.update_of_ne (by decide), Function.update_of_ne (by decide),
      Function.update_self]

/-! ## Rows -/

/-- The row that waits, as the worker sent it. -/
def waiting : Option MeasuredRow → List (Result Row)
  | none => []
  | some measured => [.ok measured.row]

def sent (rows : List Row) : List (Result Row) := rows.map .ok

theorem ends_receive :
    Meets (At plan env w₀ leases committed queue) (receive plan env)
      (Ends plan env w₀ fun received w => ∃ queue', At plan env w₀ leases committed queue' w ∧
        match received with
        | none => queue = [] ∧ queue' = []
        | some row => queue = .ok row :: queue') := by
  intro w hw
  show Ends plan env w₀ _ (answer plan env w).1 (answer plan env w).2
  have hqueue := hw.queue
  unfold answer
  split
  next => exact ⟨hw.good, fun h => by cases h⟩
  next hnil => exact ⟨[], ⟨hw.good, hw.content, hw.leases, hw.committed, hnil⟩, hqueue ▸ hnil, rfl⟩
  next row queue' hnone hcons =>
    exact ⟨queue', ⟨hw.good, hw.content, hw.leases, hw.committed, rfl⟩, hqueue ▸ hcons⟩
  next => exact ⟨hw.good, fun h => by cases h⟩

/-- The next row is the one that waits, or the next of the worker's. -/
theorem ends_nextRow (carried : Option MeasuredRow) :
    Meets (At plan env w₀ leases committed queue) (nextRow plan env carried)
      (Ends plan env w₀ fun next w => ∃ queue', At plan env w₀ leases committed queue' w ∧
        match next with
        | none => carried = none ∧ queue = [] ∧ queue' = []
        | some measured => waiting carried ++ queue = .ok measured.row :: queue') := by
  unfold nextRow
  cases carried with
  | some measured => exact ends_pure fun w hw => ⟨queue, hw, rfl⟩
  | none =>
    dsimp only
    refine Meets.next ends_receive fun received => ?_
    cases received with
    | none =>
      refine ends_pure fun w hw => ?_
      obtain ⟨queue', hw, hnil⟩ := hw
      exact ⟨queue', hw, rfl, hnil⟩
    | some row =>
      rintro w ⟨queue', hw, hcons⟩
      refine Meets.next ends_conversion (fun bytes => ends_pure fun w hw => ?_) w hw
      exact ⟨queue', hw, hcons⟩

/-- What the loop leaves: the rows of the batch, the row that waits, and the rest are what there
was before it. -/
structure Filled (carried : Option MeasuredRow) (taken : List Row) (queue : List (Result Row))
    (rows : List Row) (deferred : Option MeasuredRow) (queue' : List (Result Row)) : Prop where
  same : sent taken ++ (waiting carried ++ queue) = sent rows ++ (waiting deferred ++ queue')
  empty : rows = [] → deferred = none ∧ queue' = []

theorem ends_fillBatch {byteLimit slots : Nat} {carried : Option MeasuredRow} {taken : List Row}
    {estimated : Nat} (hcarried : carried = none ∨ 0 < slots) (hslots : 0 < slots ∨ taken ≠ []) :
    Meets (At plan env w₀ leases committed queue)
      (fillBatch plan env byteLimit slots carried taken estimated)
      (Ends plan env w₀ fun fill w => ∃ queue', At plan env w₀ leases committed queue' w ∧
        Filled carried taken queue fill.1 fill.2 queue') := by
  induction slots generalizing carried taken estimated queue with
  | zero =>
    have hnone : carried = none := hcarried.resolve_right (by omega)
    have hne : taken ≠ [] := hslots.resolve_left (by omega)
    subst hnone
    exact ends_pure fun w hw => ⟨queue, hw, rfl, fun h => absurd h hne⟩
  | succ slots ih =>
    unfold fillBatch
    refine Meets.next (ends_nextRow carried) fun next => ?_
    cases next with
    | none =>
      refine ends_pure fun w hw => ?_
      obtain ⟨queue', hw, hcarried, hnil, hnil'⟩ := hw
      subst hcarried hnil hnil'
      exact ⟨[], hw, rfl, fun _ => ⟨rfl, rfl⟩⟩
    | some measured =>
      rintro w ⟨queue', hw, hrows⟩
      dsimp only at hrows ⊢
      split_ifs with hover hlimit hfirst
      · exact ⟨hw.good, fun h => by cases h⟩
      · exact ⟨hw.good, fun h => by cases h⟩
      · exact ⟨queue', hw, by rw [hrows]; rfl, fun h => absurd h hfirst⟩
      · refine Meets.next ends_conversion (fun _ => ?_) w hw
        refine Meets.conseq (ih (.inl rfl) (.inr (by simp))) (fun _ h => h) fun r w h => ?_
        cases r with
        | error stop => exact h
        | ok fill =>
          obtain ⟨queue'', hw, hfilled⟩ := h
          refine ⟨queue'', hw, ?_, hfilled.empty⟩
          rw [hrows, ← hfilled.same]
          simp [sent, waiting]

/-! ## A call -/

/-- The lease of the row that waits. -/
def waitingLeases : Option MeasuredRow → Leases
  | none => []
  | some measured => [(.memoryBytes, measured.bytes)]

theorem ends_activeChecks :
    Meets (At plan env w₀ leases committed queue) (activeChecks plan env)
      (Ends plan env w₀ fun _ => At plan env w₀ leases committed queue) := by
  intro w hw
  show Ends plan env w₀ _ (activeChecked plan env w).1 (activeChecked plan env w).2
  unfold activeChecked
  split
  next => exact ⟨hw.good, fun h => by cases h⟩
  next =>
    split_ifs
    · exact ⟨hw.good, fun h => by cases h⟩
    · exact hw

theorem ends_carry (pending : Option MeasuredRow) :
    Meets (At plan env w₀ (waitingLeases pending) committed queue) (carry plan env pending)
      (Ends plan env w₀ fun _ => At plan env w₀ [] committed queue) := by
  cases pending with
  | none => exact ends_pure fun w hw => hw
  | some measured =>
    have h := @ends_release plan env w₀ _ committed queue .memoryBytes measured.bytes
      (List.mem_singleton_self _)
    rwa [List.erase_cons_head] at h

theorem ends_park (deferred : Option MeasuredRow) :
    Meets (At plan env w₀ [] committed queue) (park env deferred)
      (Ends plan env w₀ fun _ => At plan env w₀ (waitingLeases deferred) committed queue) := by
  cases deferred with
  | none => exact ends_pure fun w hw => hw
  | some measured => exact ends_tryLease .memoryBytes measured.bytes

/-- What a call that did not fail answered, from the rows that were to come. -/
def Answered (plan : Plan) (env : Environment) (w₀ : World) (coming : List (Result Row))
    (committed : ResourceKind → Nat) (queue : List (Result Row)) :
    Option (List Row) × Option MeasuredRow → Prop
  | (none, deferred) => deferred = none ∧ coming = [] ∧ (Content env w₀ → ¬ Exhausted plan w₀)
  | (some rows, deferred) => rows ≠ [] ∧
      committed .rows = w₀.ledger.committed .rows + rows.length ∧
      coming = sent rows ++ (waiting deferred ++ queue)

/-- **A call delivers the rows that come next, and ends only after the last one.** -/
theorem ends_nextActiveBatch (stream : MysqlBatchStream) :
    Meets (At plan env w₀ (waitingLeases stream.pending) w₀.ledger.committed queue)
      (nextActiveBatch plan env stream)
      (Ends plan env w₀ fun answer w => ∃ committed' queue',
        At plan env w₀ (waitingLeases answer.2) committed' queue' w ∧
          Answered plan env w₀ (waiting stream.pending ++ queue) committed' queue' answer) := by
  unfold nextActiveBatch
  refine Meets.next ends_activeChecks fun _ => ?_
  refine Meets.next (ends_carry stream.pending) fun _ => ?_
  refine Meets.next ends_acquire fun reservation => ?_
  rintro w ⟨hw, hpos, hleft⟩
  refine Meets.next (ends_ofResult fun stop h => ?_) (fun _ => ?_) w hw
  · rw [mapError_cause h]
    decide
  refine Meets.next (ends_fillBatch (.inr hpos) (.inl hpos)) fun fill => ?_
  rintro w ⟨queue', hw, hfilled⟩
  have hsame : waiting stream.pending ++ queue = sent fill.1 ++ (waiting fill.2 ++ queue') :=
    hfilled.same
  split_ifs with hempty
  · -- no row: the worker is done
    obtain ⟨hdeferred, hqueue⟩ := hfilled.empty hempty
    refine Meets.next (R := fun _ => At plan env w₀ [] w₀.ledger.committed queue')
      (meets_dropAll.conseq (fun _ h => h) ?_) (fun _ => ends_pure fun w hw => ?_) w hw
    · rintro r w ⟨rfl, hw⟩
      exact hw
    · refine ⟨_, queue', hw, rfl, ?_, hleft⟩
      rw [hsame, hempty, hdeferred, hqueue]
      rfl
  · refine Meets.next ends_conversion (fun bytes => ?_) w hw
    refine Meets.next ends_conversion fun components => ?_
    refine Meets.next ends_commit fun _ => ?_
    rintro w ⟨committed', hw, hrows⟩
    refine Meets.next (ends_park fill.2) (fun _ => ?_) w hw
    refine Meets.next ends_conversion fun _ => ends_pure fun w hw => ?_
    exact ⟨committed', queue', hw, hempty, hrows, hsame⟩

end Steps

/-! ## The invariant of a run -/

/-- A stream that can still deliver: what was delivered, what waits and what the worker holds are
the rows of the server. -/
structure Open (env : Environment) (start : World) (server : List (Result Row)) (done : List Row)
    (stream : MysqlBatchStream) (w : World) : Prop where
  rows : server = sent done ++ (waiting stream.pending ++ w.queue)
  leases : w.ledger.leases = waitingLeases stream.pending
  committed : w.ledger.committed .rows = done.length
  content : Content env start → w.ledger.others .rows = start.ledger.others .rows

structure Inv (plan : Plan) (env : Environment) (start : World) (server : List (Result Row))
    (done : List Row) (stream : MysqlBatchStream) (w : World) : Prop where
  good : Good plan w
  isPrefix : sent done <+: server
  active : stream.state = .active → Open env start server done stream w
  closed : stream.state ≠ .active → stream.pending = none ∧ w.ledger.leases = []
  drained : stream.state = .drained → sent done = server

/-- The rows of an answer. -/
def batch : Outcome → List Row
  | .ok (some rows) => rows
  | _ => []

theorem delivered_cons (outcome : Outcome) (outcomes : List Outcome) :
    delivered (outcome :: outcomes) = batch outcome ++ delivered outcomes := by
  rcases outcome with stop | _ | rows <;> rfl

/-- What a call of an active stream says. -/
structure Told (plan : Plan) (env : Environment) (start : World) (done : List Row)
    (stream : MysqlBatchStream) (outcome : Outcome) (stream' : MysqlBatchStream) : Prop where
  batch : ∀ rows, outcome = .ok (some rows) → rows ≠ [] ∧ stream'.state = .active ∧
    ∀ measured, stream.pending = some measured → rows.head? = some measured.row
  ended : outcome = .ok none → stream'.state = .drained ∧
    (Content env start → start.ledger.others .rows + done.length ≠ plan.limits .rows)
  failed : ∀ stop, outcome = .error stop → stream'.state = .failed stop ∧
    (stop.cause = .rows → Content env start →
      start.ledger.others .rows + done.length = plan.limits .rows)

section Runs

variable {plan : Plan} {env : Environment} {start : World} {server : List (Result Row)}
variable {done : List Row} {stream : MysqlBatchStream} {w : World}

theorem sent_append (rows rows' : List Row) : sent (rows ++ rows') = sent rows ++ sent rows' :=
  List.map_append

theorem inv_fail (hgood : Good plan w) (hinitial : sent done <+: server) (stop : Stop)
    (stream : MysqlBatchStream) :
    Inv plan env start server done (fail plan env stream stop w).2.1
      (fail plan env stream stop w).2.2 := by
  have hdrop := (meets_dropAll w (at_self hgood : At plan env w _ _ _ w)).2
  refine ⟨hdrop.good, hinitial, fun h => ?_, fun _ => ⟨rfl, hdrop.leases⟩, fun h => ?_⟩
  · cases h
  · cases h

theorem Open.content' (h : Open env start server done stream w) (hc : Content env start) :
    Content env w := by
  intro clock
  rw [hc clock, h.content hc]

theorem Open.exhausted_iff (h : Open env start server done stream w) (hc : Content env start) :
    Exhausted plan w ↔ start.ledger.others .rows + done.length = plan.limits .rows := by
  unfold Exhausted
  rw [h.content hc, h.committed]

/-- **A call keeps the invariant.** -/
theorem inv_nextBatch (h : Inv plan env start server done stream w)
    (cancelled : Option Interruption) :
    Inv plan env start server (done ++ batch (nextBatch plan env cancelled stream w).1)
        (nextBatch plan env cancelled stream w).2.1 (nextBatch plan env cancelled stream w).2.2 ∧
      (stream.state = .active → Told plan env start done stream
        (nextBatch plan env cancelled stream w).1 (nextBatch plan env cancelled stream w).2.1) := by
  unfold nextBatch
  cases hstate : stream.state with
  | drained =>
    refine ⟨?_, fun h => by cases h⟩
    show Inv plan env start server (done ++ []) stream w
    rwa [List.append_nil]
  | failed stop =>
    refine ⟨?_, fun h => by cases h⟩
    show Inv plan env start server (done ++ []) stream w
    rwa [List.append_nil]
  | active =>
    have hopen := h.active hstate
    cases cancelled with
    | some interruption =>
      refine ⟨?_, fun _ => ⟨fun rows h => (by cases h), fun h => (by cases h), fun stop h => ?_⟩⟩
      · show Inv plan env start server (done ++ []) _ _
        rw [List.append_nil]
        exact inv_fail h.good h.isPrefix _ stream
      · cases h
        exact ⟨rfl, fun h => by cases h⟩
    | none =>
      have hself : At plan env w (waitingLeases stream.pending) w.ledger.committed w.queue w := by
        rw [← hopen.leases]
        exact at_self h.good
      have hends := ends_nextActiveBatch stream w hself
      dsimp only
      generalize (nextActiveBatch plan env stream).outcome w = answer at hends ⊢
      obtain ⟨answer, w'⟩ := answer
      rcases answer with stop | ⟨_ | rows, deferred⟩
      · -- a failure
        obtain ⟨hgood, hrows⟩ := hends
        refine ⟨?_, fun _ => ⟨fun rows h => (by cases h), fun h => (by cases h), fun stop' h => ?_⟩⟩
        · show Inv plan env start server (done ++ []) _ _
          rw [List.append_nil]
          exact inv_fail hgood h.isPrefix stop stream
        · cases h
          refine ⟨rfl, fun hcause hc => ?_⟩
          exact (hopen.exhausted_iff hc).1 (hrows hcause (hopen.content' hc))
      · -- the end
        obtain ⟨committed', queue', hw', rfl, hcoming, hleft⟩ := hends
        have hall : sent done = server := by
          rw [hopen.rows, hcoming, List.append_nil]
        refine ⟨⟨hw'.good, ?_, fun h => (by cases h), fun _ => ⟨rfl, hw'.leases⟩, fun _ => ?_⟩,
          fun _ => ⟨fun rows h => (by cases h), fun _ => ⟨rfl, fun hc heq => ?_⟩,
            fun stop h => by cases h⟩⟩
        · show sent (done ++ []) <+: server
          rw [List.append_nil]
          exact h.isPrefix
        · show sent (done ++ []) = server
          rwa [List.append_nil]
        · exact hleft (hopen.content' hc) ((hopen.exhausted_iff hc).2 heq)
      · -- a batch
        obtain ⟨committed', queue', hw', hne, hcommitted, hcoming⟩ := hends
        have hsplit : server = sent (done ++ rows) ++ (waiting deferred ++ queue') := by
          rw [hopen.rows, hcoming, sent_append, List.append_assoc]
        refine ⟨⟨hw'.good, ?_, fun _ => ⟨?_, hw'.leases, ?_, fun hc => ?_⟩, fun h => ?_, fun h => ?_⟩,
          fun _ => ⟨fun rows' h => ?_, fun h => (by cases h), fun stop h => by cases h⟩⟩
        · exact ⟨_, hsplit.symm⟩
        · rw [hw'.queue]
          exact hsplit
        · rw [hw'.committed, hcommitted, hopen.committed]
          exact (List.length_append).symm
        · rw [hw'.content (hopen.content' hc), hopen.content hc]
        · exact absurd rfl h
        · cases h
        · cases h
          refine ⟨hne, rfl, fun measured hpending => ?_⟩
          rw [hpending] at hcoming
          cases rows with
          | nil => exact absurd rfl hne
          | cons row rows =>
            have hhead : (Except.ok measured.row : Result Row) = .ok row :=
              (List.cons.inj hcoming).1
            cases hhead
            rfl

theorem run_closed (hstate : stream.state ≠ .active) (calls : List (Option Interruption)) :
    (run plan env calls stream w).2 = (stream, w) ∧
      ∀ outcome ∈ (run plan env calls stream w).1,
        outcome = (nextBatch plan env none stream w).1 := by
  have hcall : ∀ cancelled, nextBatch plan env cancelled stream w =
      ((nextBatch plan env none stream w).1, stream, w) := by
    intro cancelled
    unfold nextBatch
    cases hs : stream.state with
    | active => exact absurd hs hstate
    | drained => rfl
    | failed stop => rfl
  induction calls with
  | nil => exact ⟨rfl, fun outcome h => by cases h⟩
  | cons cancelled calls ih =>
    rw [run, hcall cancelled]
    exact ⟨ih.1, List.forall_mem_cons.2 ⟨rfl, ih.2⟩⟩

/-- After a failure every call fails so. -/
theorem run_failed {stop : Stop} (h : stream.state = .failed stop)
    (calls : List (Option Interruption)) :
    (run plan env calls stream w).2 = (stream, w) ∧
      ∀ outcome ∈ (run plan env calls stream w).1, outcome = .error stop := by
  have hclosed := @run_closed plan env stream w (by rw [h]; exact fun h => by cases h) calls
  have hnext : (nextBatch plan env none stream w).1 = .error stop := by
    unfold nextBatch
    rw [h]
  rwa [hnext] at hclosed

theorem run_drained (h : stream.state = .drained) (calls : List (Option Interruption)) :
    (run plan env calls stream w).2 = (stream, w) ∧
      ∀ outcome ∈ (run plan env calls stream w).1, outcome = .ok none := by
  have hclosed := @run_closed plan env stream w (by rw [h]; exact fun h => by cases h) calls
  have hnext : (nextBatch plan env none stream w).1 = .ok none := by
    unfold nextBatch
    rw [h]
  rwa [hnext] at hclosed

theorem delivered_of_empty {outcomes : List Outcome} (h : ∀ o ∈ outcomes, batch o = []) :
    delivered outcomes = [] := by
  induction outcomes with
  | nil => rfl
  | cons outcome outcomes ih =>
    rw [List.forall_mem_cons] at h
    rw [delivered_cons, h.1, ih h.2]
    rfl

/-- **A run keeps the invariant.** -/
theorem inv_run (calls : List (Option Interruption))
    (h : Inv plan env start server done stream w) :
    Inv plan env start server (done ++ delivered (run plan env calls stream w).1)
      (run plan env calls stream w).2.1 (run plan env calls stream w).2.2 := by
  induction calls generalizing done stream w with
  | nil =>
    show Inv plan env start server (done ++ []) stream w
    rwa [List.append_nil]
  | cons cancelled calls ih =>
    have hnext := ih (inv_nextBatch h cancelled).1
    rw [run, delivered_cons, ← List.append_assoc]
    exact hnext

/-- The end is told after the last row. -/
theorem sent_of_ended (calls : List (Option Interruption))
    (h : Inv plan env start server done stream w) (hactive : stream.state = .active)
    {before after : List Outcome}
    (heq : (run plan env calls stream w).1 = before ++ .ok none :: after) :
    sent (done ++ delivered before) = server ∧
      (Content env start → start.ledger.others .rows + server.length ≠ plan.limits .rows) := by
  induction calls generalizing done stream w before with
  | nil => exact absurd heq (by simp [run])
  | cons cancelled calls ih =>
    obtain ⟨hinv, htold⟩ := inv_nextBatch h cancelled
    rw [run] at heq
    generalize nextBatch plan env cancelled stream w = answer at hinv htold heq
    obtain ⟨outcome, stream', w'⟩ := answer
    have htold := htold hactive
    cases before with
    | nil =>
      have hended : outcome = .ok none := (List.cons.inj heq).1
      obtain ⟨hdrained, hleft⟩ := htold.ended hended
      have hserver := hinv.drained hdrained
      rw [hended] at hserver
      have hdone : sent done = server := by
        rw [← hserver]
        show sent done = sent (done ++ [])
        rw [List.append_nil]
      refine ⟨hserver, fun hc => ?_⟩
      rw [← hdone, sent, List.length_map]
      exact hleft hc
    | cons first before =>
      obtain ⟨hfirst, hrest⟩ := List.cons.inj heq
      rcases outcome with stop | _ | rows
      · have hfailed := (htold.failed stop rfl).1
        have hmem := (run_failed hfailed calls).2 (.ok none) (by rw [hrest]; simp)
        cases hmem
      · obtain ⟨hdrained, hleft⟩ := htold.ended rfl
        have hserver : sent done = server := by
          have hserver := hinv.drained hdrained
          rw [← hserver]
          show sent done = sent (done ++ [])
          rw [List.append_nil]
        refine ⟨?_, fun hc => ?_⟩
        · have hnone : delivered (first :: before) = [] := by
            refine delivered_of_empty (List.forall_mem_cons.2 ⟨hfirst ▸ rfl, fun o ho => ?_⟩)
            rw [(run_drained hdrained calls).2 o (by rw [hrest]; exact List.mem_append_left _ ho)]
            rfl
          rw [hnone, List.append_nil]
          exact hserver
        · rw [← hserver, sent, List.length_map]
          exact hleft hc
      · have hactive' := (htold.batch rows rfl).2.1
        obtain ⟨hsent, hleft⟩ := ih hinv hactive' hrest
        refine ⟨?_, hleft⟩
        rw [← hfirst, delivered_cons, ← List.append_assoc]
        exact hsent

/-- After a failure nothing else comes. -/
theorem failed_of_run (calls : List (Option Interruption))
    (h : Inv plan env start server done stream w) (hactive : stream.state = .active)
    {before after : List Outcome} {stop : Stop}
    (heq : (run plan env calls stream w).1 = before ++ .error stop :: after) :
    (∀ outcome ∈ after, outcome = .error stop) ∧
      (run plan env calls stream w).2.1.state = .failed stop := by
  induction calls generalizing done stream w before with
  | nil => exact absurd heq (by simp [run])
  | cons cancelled calls ih =>
    obtain ⟨hinv, htold⟩ := inv_nextBatch h cancelled
    rw [run] at heq ⊢
    generalize nextBatch plan env cancelled stream w = answer at hinv htold heq ⊢
    obtain ⟨outcome, stream', w'⟩ := answer
    have htold := htold hactive
    rcases outcome with stop' | _ | rows
    · have hfailed := (htold.failed stop' rfl).1
      obtain ⟨hend, hall⟩ := @run_failed plan env stream' w' _ hfailed calls
      have hsame : ∀ o ∈ before ++ .error stop :: after, o = .error stop' := by
        rw [← heq]
        exact List.forall_mem_cons.2 ⟨rfl, hall⟩
      have hstop := hsame (.error stop) (by simp)
      cases hstop
      refine ⟨fun o ho => hsame o (by simp [ho]), ?_⟩
      show (run plan env calls stream' w').2.1.state = _
      rw [hend]
      exact hfailed
    · have hdrained := (htold.ended rfl).1
      have hall := (@run_drained plan env stream' w' hdrained calls).2
      have hsame : ∀ o ∈ before ++ .error stop :: after, o = .ok none := by
        rw [← heq]
        exact List.forall_mem_cons.2 ⟨rfl, hall⟩
      have hstop := hsame (.error stop) (by simp)
      cases hstop
    · have hactive' := (htold.batch rows rfl).2.1
      cases before with
      | nil => cases (List.cons.inj heq).1
      | cons first before => exact ih hinv hactive' (List.cons.inj heq).2

/-- Where rows are left in the budget, a run that does not end delivers a row with every call. -/
theorem length_le_delivered (calls : List (Option Interruption))
    (h : Inv plan env start server done stream w) (hactive : stream.state = .active)
    (hc : Content env start)
    (hleft : start.ledger.others .rows + server.length < plan.limits .rows)
    (hcause : ∀ stop, .error stop ∈ (run plan env calls stream w).1 → stop.cause = .rows)
    (hends : .ok none ∉ (run plan env calls stream w).1) :
    calls.length ≤ (delivered (run plan env calls stream w).1).length := by
  induction calls generalizing done stream w with
  | nil => exact Nat.le_refl 0
  | cons cancelled calls ih =>
    obtain ⟨hinv, htold⟩ := inv_nextBatch h cancelled
    rw [run] at hcause hends ⊢
    generalize nextBatch plan env cancelled stream w = answer at hinv htold hcause hends ⊢
    obtain ⟨outcome, stream', w'⟩ := answer
    have htold := htold hactive
    rcases outcome with stop | _ | rows
    · have hfull := (htold.failed stop rfl).2 (hcause stop (List.mem_cons_self ..)) hc
      have hle := h.isPrefix.length_le
      rw [sent, List.length_map] at hle
      omega
    · exact absurd (List.mem_cons_self ..) hends
    · obtain ⟨hne, hactive', -⟩ := htold.batch rows rfl
      have hrest : calls.length ≤ (delivered (run plan env calls stream' w').1).length := ih hinv hactive'
        (fun stop hmem => hcause stop (List.mem_cons_of_mem _ hmem))
        fun hmem => hends (List.mem_cons_of_mem _ hmem)
      have hpos := List.length_pos_iff.2 hne
      rw [delivered_cons, List.length_append]
      show calls.length + 1 ≤ rows.length + (delivered (run plan env calls stream' w').1).length
      omega

end Runs

/-! ## Every run -/

/-- What holds where a run got to. -/
structure Safe (plan : Plan) (env : Environment) (server : List (Result Row))
    (outcomes : List Outcome) (stream : MysqlBatchStream) (w : World) : Prop where
  inOrder : sent (delivered outcomes) <+: server
  ended : ∀ before after, outcomes = before ++ .ok none :: after → sent (delivered before) = server
  failed : ∀ before stop after, outcomes = before ++ .error stop :: after →
    (∀ outcome ∈ after, outcome = .error stop) ∧ stream.pending = none ∧ w.ledger.leases = []
  waiting : ∀ measured, stream.pending = some measured →
    w.ledger.leases = [(.memoryBytes, measured.bytes)] ∧ ∀ cancelled rows,
      (nextBatch plan env cancelled stream w).1 = .ok (some rows) → rows.head? = some measured.row
  idle : stream.pending = none → w.ledger.leases = []
  bounded : ∀ ledger, ledger = w.ledger ∨ ledger ∈ w.passed → ∀ kind,
    ledger.others kind + ledger.held kind + ledger.committed kind ≤ plan.limits kind

/-- The budget as a stream is opened. -/
structure Fresh (plan : Plan) (w : World) : Prop where
  conserved : w.ledger.Conserved plan.limits
  passed : w.passed = []
  leases : w.ledger.leases = []
  committed : w.ledger.committed = fun _ => 0

/-- The other holders leave the rows alone, and no call fails for anything but the rows: the
memory, the output and the components are enough, and nothing interrupts the read. -/
structure Suffices (env : Environment) (w : World) (outcomes : List Outcome) : Prop where
  content : Content env w
  causes : ∀ stop, .error stop ∈ outcomes → stop.cause = .rows

section Main

variable {plan : Plan} {env : Environment} {w : World}

theorem inv_opened (h : Fresh plan w) : Inv plan env w w.queue [] opened w := by
  refine ⟨⟨h.conserved, fun ledger hmem => ?_⟩, List.nil_prefix, fun _ => ?_, fun hne => ?_,
    fun hd => ?_⟩
  · rw [h.passed] at hmem
    cases hmem
  · exact ⟨rfl, h.leases, congrFun h.committed .rows, fun _ => rfl⟩
  · exact absurd rfl hne
  · cases hd

theorem safe_run (h : Fresh plan w) (calls : List (Option Interruption)) :
    Safe plan env w.queue (run plan env calls opened w).1 (run plan env calls opened w).2.1
      (run plan env calls opened w).2.2 := by
  have hinit := @inv_opened plan env w h
  have hinv := inv_run calls hinit
  refine ⟨hinv.isPrefix, fun before after heq => (sent_of_ended calls hinit rfl heq).1,
    fun before stop after heq => ?_, fun measured hpending => ?_, fun hpending => ?_,
    fun ledger hledger kind => ?_⟩
  · obtain ⟨hall, hstate⟩ := failed_of_run calls hinit rfl heq
    refine ⟨hall, hinv.closed ?_⟩
    rw [hstate]
    exact fun heq => by cases heq
  · have hactive : (run plan env calls opened w).2.1.state = .active := by
      by_contra hne
      rw [(hinv.closed hne).1] at hpending
      cases hpending
    refine ⟨?_, fun cancelled rows hrows => ?_⟩
    · rw [(hinv.active hactive).leases, hpending]
      rfl
    · exact (((inv_nextBatch hinv cancelled).2 hactive).batch rows hrows).2.2 measured hpending
  · by_cases hactive : (run plan env calls opened w).2.1.state = .active
    · rw [(hinv.active hactive).leases, hpending]
      rfl
    · exact (hinv.closed hactive).2
  · have hconserved : ledger.Conserved plan.limits := by
      rcases hledger with rfl | hmem
      · exact hinv.good.1
      · exact hinv.good.2 ledger hmem
    have := hconserved kind
    omega

/-- **Every run is safe; where the budgets suffice, the stream ends unless the rows are exactly
those that are left in the budget.** -/
theorem run_bounded (h : Fresh plan w) (calls : List (Option Interruption)) :
    Safe plan env w.queue (run plan env calls opened w).1 (run plan env calls opened w).2.1
        (run plan env calls opened w).2.2 ∧
      (Suffices env w (run plan env calls opened w).1 → ∀ rows, w.queue = sent rows →
        rows.length < calls.length → rows.length ≤ w.ledger.remaining .rows →
          (.ok none ∈ (run plan env calls opened w).1 ↔
            rows.length ≠ w.ledger.remaining .rows)) := by
  refine ⟨safe_run h calls, fun hsuffices rows hqueue hcalls hle => ?_⟩
  have hinit := @inv_opened plan env w h
  have hlimit := h.conserved .rows
  unfold Ledger.held at hlimit
  rw [h.leases, congrFun h.committed .rows, Ledger.total_nil] at hlimit
  have hlength : w.queue.length = rows.length := by
    rw [hqueue, sent, List.length_map]
  constructor
  · intro hmem
    obtain ⟨before, after, heq⟩ := List.append_of_mem hmem
    have hleft := (sent_of_ended calls hinit rfl heq).2 hsuffices.content
    omega
  · intro hne
    by_contra hends
    have hmany := length_le_delivered calls hinit rfl hsuffices.content (by omega)
      hsuffices.causes hends
    have hfew := (inv_run calls hinit).isPrefix.length_le
    rw [sent, List.length_map] at hfew
    have hsame : ([] ++ delivered (run plan env calls opened w).1).length =
      (delivered (run plan env calls opened w).1).length := rfl
    omega

end Main

/-- A plan of one column of integers. -/
def integers : Plan where
  columns := 1
  spatial := false
  crsChecks := []
  batchRows := 2
  limits := fun kind => if kind = .rows then 1 else 1000
  append := fun _ _ => .ok ()
  assemble := fun rows => .ok (8 * rows.length)
  components := fun _ _ => .ok 0
  profile := Product.mysql.profile
  batchRows_pos := by decide
  batchRows_le := by decide
  limits_lt := by
    intro kind
    split_ifs <;> decide

/-- No other holder, no interruption. -/
def alone : Environment := ⟨fun _ _ => 0, fun _ => none, fun _ => false⟩

/-- The rows of a server, and a budget of which nothing is out. -/
def fresh (plan : Plan) (rows : List Row) : World where
  ledger := ⟨plan.limits, fun _ => 0, [], fun _ => 0⟩
  queue := sent rows
  clock := 0
  passed := []

theorem fresh_fresh (plan : Plan) (rows : List Row) : Fresh plan (fresh plan rows) :=
  ⟨fun kind => by simp [fresh, Ledger.held], rfl, rfl, rfl⟩

/-- Two rows, of which a batch takes one at a time, in a budget of three. -/
def threeRows : Plan :=
  { integers with
    batchRows := 1
    limits := fun kind => if kind = .rows then 3 else 1000
    batchRows_pos := by decide
    batchRows_le := by decide
    limits_lt := by
      intro kind
      split_ifs <;> decide }

theorem run_threeRows :
    (run threeRows alone [none, none, none] opened (fresh threeRows [[.int 1], [.int 2]])).1 =
      [.ok (some [[.int 1]]), .ok (some [[.int 2]]), .ok none] := rfl

theorem suffices_threeRows : Suffices alone (fresh threeRows [[.int 1], [.int 2]])
    (run threeRows alone [none, none, none] opened (fresh threeRows [[.int 1], [.int 2]])).1 := by
  refine ⟨fun _ => rfl, fun stop hmem => ?_⟩
  rw [run_threeRows] at hmem
  simp at hmem

theorem run_bounded_threeRows :
    .ok none ∈
        (run threeRows alone [none, none, none] opened (fresh threeRows [[.int 1], [.int 2]])).1 ↔
      [[Value.int 1], [.int 2]].length ≠
        (fresh threeRows [[.int 1], [.int 2]]).ledger.remaining .rows :=
  (run_bounded (fresh_fresh threeRows [[.int 1], [.int 2]]) [none, none, none]).2
    suffices_threeRows [[.int 1], [.int 2]] rfl (by decide) (by decide)

/-- A read of one row with a budget of one row delivers it, and then fails. -/
theorem run_ends_late :
    (run integers alone [none, none] opened (fresh integers [[.int 1]])).1 =
        [.ok (some [[.int 1]]), .error ⟨.rows, .resourceLimit "budget read esaurito"⟩] ∧
      Suffices alone (fresh integers [[.int 1]])
        (run integers alone [none, none] opened (fresh integers [[.int 1]])).1 ∧
      1 ≤ (fresh integers [[.int 1]]).ledger.remaining .rows ∧
      .ok none ∉ (run integers alone [none, none] opened (fresh integers [[.int 1]])).1 := by
  have hrun : (run integers alone [none, none] opened (fresh integers [[.int 1]])).1 =
      [.ok (some [[.int 1]]), .error ⟨.rows, .resourceLimit "budget read esaurito"⟩] := rfl
  refine ⟨hrun, ⟨fun _ => rfl, fun stop hmem => ?_⟩, by decide, ?_⟩
  · rw [hrun] at hmem
    simp at hmem
    rw [hmem]
  · rw [hrun]
    simp

end Plenora.Mysql.BatchStream
