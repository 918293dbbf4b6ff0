import Plenora.Sdk.Migrations

/-!
# Runs of the migration runner

Every transaction of the runner takes the lock row before it reads, so what it
read is what its commit changes.  A commit keeps the history sound: the applied
revisions are closed under parents, and the schema has the effects of their
migrations, each once.

    database.run (clients runner calls) events = some c → … → Safe runner calls c      (run_safe)
-/

namespace Plenora.Sdk.Migrations

open Plenora.Lib Plenora.Lib.Program Plenora.Lib.Protocol

variable {E : Type}

/-! ## The property -/

/-- The migrations that the history records as applied. -/
def Runner.applied (runner : Runner E) (store : Store E) : List (Migration E) :=
  runner.migrations.filter (·.revision ∈ store.applied)

structure Sound (runner : Runner E) (store : Store E) : Prop where
  unique : (store.rows.map (·.revision)).Nodup
  registered : store.applied ⊆ runner.migrations.map (·.revision)
  closed : ∀ migration ∈ runner.migrations, migration.revision ∈ store.applied →
    migration.parents ⊆ store.applied
  schema : store.schema.Perm ((runner.applied store).flatMap (·.upgrade))

/-- A statement of a callback. -/
def Change.isStatement : Change E → Bool
  | .add _ | .remove _ => true
  | _ => false

structure Safe [DecidableEq E] (runner : Runner E) (calls : Nat → Call)
    (c : Clients (Server E) (Request E) Answer Failure (Except Failure (List String))) : Prop where
  sound : Sound runner c.shared.store
  /-- No statement of a callback runs while a row is running or failed. -/
  quiet : ∀ i tx change next, c.program i = .ask (.execute tx change) next →
    change.isStatement = true → (c.shared.changes (i, tx)).isSome = true →
      ∀ row ∈ c.shared.store.rows, row.state = .applied
  /-- What `apply` returns was committed by that call. -/
  own : ∀ i revisions, calls i = .apply → c.program i = .done (.ok revisions) →
    ∀ revision ∈ revisions, ∃ changes, (i, changes) ∈ c.shared.commits ∧
      .setState revision .applied ∈ changes

/-- The schema has the effects of the revision besides those of the other applied ones. -/
def Present (runner : Runner E) (revision : String) (store : Store E) : Prop :=
  ∀ migration ∈ runner.migrations, migration.revision = revision →
    (((runner.applied store).filter (·.revision ≠ revision)).flatMap (·.upgrade) ++
      migration.upgrade).Subperm store.schema

/-- `assume_applied` is passed truthfully. -/
def Truthful (runner : Runner E) (calls : Nat → Call) (s : Server E) (client : Nat) :
    Request E → Prop
  | .lock _ => ∀ revision, calls client = .recover revision true → Present runner revision s.store
  | _ => True

/-! ## The graph -/

theorem orderRounds_perm {rounds : Nat} {pending ordered result : List (Migration E)}
    (h : orderRounds rounds pending ordered = .ok result) : result.Perm (ordered ++ pending) := by
  induction rounds generalizing pending ordered with
  | zero =>
    cases pending with
    | nil =>
      cases h
      rw [List.append_nil]
    | cons item pending => cases h
  | succ rounds ih =>
    cases pending with
    | nil =>
      cases h
      rw [List.append_nil]
    | cons item pending =>
      rw [orderRounds] at h
      · obtain ⟨⟨⟩, -, h⟩ := bind_eq_ok.1 h
        refine (ih h).trans ?_
        rw [List.append_assoc]
        refine List.Perm.append_left _ ?_
        simp only [decide_not]
        exact List.filter_append_perm _ _
      · exact List.cons_ne_nil _ _

theorem Runner.nodup (runner : Runner E) : (runner.migrations.map (·.revision)).Nodup := by
  have haccepted := runner.accepted
  unfold orderMigrations at haccepted
  obtain ⟨⟨⟩, hunique, haccepted⟩ := bind_eq_ok.1 haccepted
  obtain ⟨⟨⟩, -, haccepted⟩ := bind_eq_ok.1 haccepted
  have hperm := (orderRounds_perm haccepted).map (·.revision)
  exact hperm.nodup_iff.2 (not_not.1 (failIf_eq_ok.1 hunique))

/-! ## Sound histories -/

/-- A migration more. -/
theorem filter_insert_perm {l : List (Migration E)} (hnodup : (l.map (·.revision)).Nodup)
    {p q : Migration E → Bool} {m : Migration E} (hm : m ∈ l) (hp : p m = false)
    (hq : ∀ x, q x = true ↔ p x = true ∨ x.revision = m.revision) :
    (l.filter q).Perm (l.filter p ++ [m]) := by
  have hl : l.Nodup := List.Nodup.of_map _ hnodup
  rw [List.perm_ext_iff_of_nodup (hl.filter _)]
  · intro x
    rw [List.mem_append, List.mem_filter, List.mem_filter, List.mem_singleton, hq]
    constructor
    · rintro ⟨hx, hpx | heq⟩
      · exact .inl ⟨hx, hpx⟩
      · exact .inr (List.inj_on_of_nodup_map hnodup hx hm heq)
    · rintro (⟨hx, hpx⟩ | rfl)
      · exact ⟨hx, .inl hpx⟩
      · exact ⟨hm, .inr rfl⟩
  · refine (hl.filter _).append (List.nodup_singleton m) ?_
    intro x hx hxm
    rw [List.mem_singleton.1 hxm, List.mem_filter, hp] at hx
    cases hx.2

variable {runner : Runner E} {store store' : Store E} {m : Migration E}

/-- The same revisions are applied. -/
theorem Sound.same (h : Sound runner store) (hunique : (store'.rows.map (·.revision)).Nodup)
    (happlied : ∀ revision, revision ∈ store'.applied ↔ revision ∈ store.applied)
    (hschema : store'.schema = store.schema) : Sound runner store' := by
  refine ⟨hunique, fun revision hrevision => h.registered ((happlied revision).1 hrevision), ?_, ?_⟩
  · intro migration hmigration hrevision parent hparent
    exact (happlied parent).2
      (h.closed migration hmigration ((happlied _).1 hrevision) hparent)
  · have hsame : runner.applied store' = runner.applied store := by
      unfold Runner.applied
      exact List.filter_congr fun migration _ => by rw [decide_eq_decide]; exact happlied _
    rw [hschema, hsame]
    exact h.schema

/-- One revision more is applied. -/
theorem Sound.insert (h : Sound runner store) (hm : m ∈ runner.migrations)
    (hnew : m.revision ∉ store.applied) (hunique : (store'.rows.map (·.revision)).Nodup)
    (happlied : ∀ revision, revision ∈ store'.applied ↔
      revision ∈ store.applied ∨ revision = m.revision)
    (hparents : m.parents ⊆ store'.applied)
    (hschema : store'.schema.Perm (store.schema ++ m.upgrade)) : Sound runner store' := by
  refine ⟨hunique, ?_, ?_, ?_⟩
  · intro revision hrevision
    rcases (happlied revision).1 hrevision with hold | rfl
    · exact h.registered hold
    · exact List.mem_map_of_mem hm
  · intro migration hmigration hrevision
    rcases (happlied _).1 hrevision with hold | heq
    · exact fun parent hparent =>
        (happlied parent).2 (.inl (h.closed migration hmigration hold hparent))
    · rw [List.inj_on_of_nodup_map runner.nodup hmigration hm heq]
      exact hparents
  · have hperm : (runner.applied store').Perm (runner.applied store ++ [m]) := by
      refine filter_insert_perm runner.nodup hm (by simpa using hnew) fun x => ?_
      rw [decide_eq_true_eq, decide_eq_true_eq]
      exact happlied _
    have hflat := hperm.flatMap_right (·.upgrade)
    rw [List.flatMap_append, List.flatMap_singleton] at hflat
    exact hschema.trans ((h.schema.append_right _).trans hflat.symm)

/-- One revision less is applied. -/
theorem Sound.delete (h : Sound runner store) (hm : m ∈ runner.migrations)
    (hold : m.revision ∈ store.applied) (hunique : (store'.rows.map (·.revision)).Nodup)
    (happlied : ∀ revision, revision ∈ store'.applied ↔
      revision ∈ store.applied ∧ revision ≠ m.revision)
    (hleaf : ∀ item ∈ runner.migrations, item.revision ∈ store.applied →
      m.revision ∉ item.parents)
    (hschema : store.schema.Perm (store'.schema ++ m.upgrade)) : Sound runner store' := by
  refine ⟨hunique, ?_, ?_, ?_⟩
  · exact fun revision hrevision => h.registered ((happlied revision).1 hrevision).1
  · intro migration hmigration hrevision parent hparent
    have hmember := ((happlied _).1 hrevision).1
    refine (happlied parent).2 ⟨h.closed migration hmigration hmember hparent, ?_⟩
    rintro rfl
    exact hleaf migration hmigration hmember hparent
  · have hperm : (runner.applied store).Perm (runner.applied store' ++ [m]) := by
      refine filter_insert_perm runner.nodup hm ?_ fun x => ?_
      · rw [decide_eq_false_iff_not, happlied]
        exact fun hboth => hboth.2 rfl
      · rw [decide_eq_true_eq, decide_eq_true_eq, happlied]
        by_cases heq : x.revision = m.revision
        · rw [heq]
          simp [hold]
        · simp [heq]
    have hflat := hperm.flatMap_right (·.upgrade)
    rw [List.flatMap_append, List.flatMap_singleton] at hflat
    exact (List.perm_append_right_iff _).1 (hschema.symm.trans (h.schema.trans hflat))

/-! ## What a transaction changes -/

section Changes

variable [DecidableEq E] (store : Store E)

theorem after_append (changes more : List (Change E)) :
    store.after (changes ++ more) = (store.after changes).after more := by
  unfold Store.after
  rw [List.foldl_append]

theorem after_cons (change : Change E) (changes : List (Change E)) :
    store.after (change :: changes) = (store.change change).after changes := rfl

@[simp] theorem after_nil : store.after [] = store := rfl

theorem after_add (effects : List E) :
    store.after (effects.map .add) = { store with schema := store.schema ++ effects } := by
  induction effects generalizing store with
  | nil => simp
  | cons effect effects ih =>
    rw [List.map_cons, after_cons, ih]
    simp [Store.change]

theorem after_remove (effects : List E) :
    store.after (effects.map .remove) = { store with schema := store.schema.diff effects } := by
  induction effects generalizing store with
  | nil => simp
  | cons effect effects ih =>
    rw [List.map_cons, after_cons, ih, List.diff_cons]
    rfl

end Changes

/-- The revision has no row. -/
def Store.Lacks (store : Store E) (revision : String) : Prop :=
  ∀ row ∈ store.rows, row.revision ≠ revision

theorem mem_applied {revision : String} :
    revision ∈ store.applied ↔ ∃ row ∈ store.rows, row.state = .applied ∧ row.revision = revision := by
  unfold Store.applied
  simp [and_assoc]

theorem Store.Lacks.not_applied {revision : String} (h : store.Lacks revision) :
    revision ∉ store.applied := by
  rw [mem_applied]
  rintro ⟨row, hrow, -, heq⟩
  exact h row hrow heq

theorem Store.Lacks.nodup_append {row : Row} (h : store.Lacks row.revision)
    (hunique : (store.rows.map (·.revision)).Nodup) :
    ((store.rows ++ [row]).map (·.revision)).Nodup := by
  rw [List.map_append]
  refine hunique.append (List.nodup_singleton _) ?_
  intro revision hrevision hnew
  obtain ⟨old, hold, rfl⟩ := List.mem_map.1 hrevision
  exact h old hold (List.mem_singleton.1 hnew)

/-- Setting the state of a revision that has a row. -/
theorem mem_applied_setState {row : Row} {state : RowState} (hrow : row ∈ store.rows)
    (revision : String) :
    revision ∈ (Store.applied ⟨store.rows.map fun r =>
        if r.revision = row.revision then { r with state } else r, store.schema⟩) ↔
      (revision ≠ row.revision ∧ revision ∈ store.applied) ∨
        (revision = row.revision ∧ state = .applied) := by
  rw [mem_applied, mem_applied]
  simp only [List.mem_map]
  constructor
  · rintro ⟨_, ⟨r, hr, rfl⟩, hstate, hrevision⟩
    split at hstate
    next heq =>
      rw [if_pos heq] at hrevision
      exact .inr ⟨hrevision.symm.trans heq, hstate⟩
    next hne =>
      rw [if_neg hne] at hrevision
      exact .inl ⟨hrevision ▸ hne, r, hr, hstate, hrevision⟩
  · rintro (⟨hne, r, hr, hstate, rfl⟩ | ⟨rfl, rfl⟩)
    · exact ⟨r, ⟨r, hr, if_neg hne⟩, hstate, rfl⟩
    · exact ⟨_, ⟨row, hrow, if_pos rfl⟩, rfl, rfl⟩

theorem map_revision_setState (rows : List Row) (revision : String) (state : RowState) :
    (rows.map fun row => if row.revision = revision then { row with state } else row).map
      (·.revision) = rows.map (·.revision) := by
  rw [List.map_map]
  refine List.map_congr_left fun row _ => ?_
  show (if row.revision = revision then { row with state } else row).revision = row.revision
  split <;> rfl

theorem mem_applied_delete {revision : String} (deleted : String) :
    revision ∈ (Store.applied ⟨store.rows.filter (·.revision ≠ deleted), store.schema⟩) ↔
      revision ∈ store.applied ∧ revision ≠ deleted := by
  rw [mem_applied, mem_applied]
  constructor
  · rintro ⟨row, hrow, hstate, rfl⟩
    rw [List.mem_filter, decide_eq_true_eq] at hrow
    exact ⟨⟨row, hrow.1, hstate, rfl⟩, hrow.2⟩
  · rintro ⟨⟨row, hrow, hstate, rfl⟩, hne⟩
    refine ⟨row, ?_, hstate, rfl⟩
    rw [List.mem_filter, decide_eq_true_eq]
    exact ⟨hrow, hne⟩

/-! ## Transactions keep a history sound -/

section Transactions

variable [DecidableEq E]

/-- What `apply` commits. -/
def upgradeChanges (m : Migration E) : List (Change E) :=
  [.insertRow ⟨m.revision, m.checksum, .running⟩] ++ m.upgrade.map .add ++
    [.setState m.revision .applied]

theorem after_upgradeChanges (h : store.Lacks m.revision) :
    store.after (upgradeChanges m) =
      ⟨store.rows ++ [⟨m.revision, m.checksum, .applied⟩], store.schema ++ m.upgrade⟩ := by
  have hold : store.rows.map (fun row =>
      if row.revision = m.revision then { row with state := .applied } else row) = store.rows := by
    rw [List.map_congr_left fun row hrow => if_neg (h row hrow), List.map_id']
  unfold upgradeChanges
  rw [after_append, after_append, after_add]
  simp only [after_cons, after_nil, Store.change, List.map_append, hold, List.map_cons,
    List.map_nil, if_true]

theorem Sound.after_upgrade (h : Sound runner store) (hm : m ∈ runner.migrations)
    (hnew : store.Lacks m.revision) (hparents : m.parents ⊆ store.applied) :
    Sound runner (store.after (upgradeChanges m)) := by
  rw [after_upgradeChanges hnew]
  have happlied : ∀ revision, revision ∈ Store.applied
      ⟨store.rows ++ [⟨m.revision, m.checksum, .applied⟩], store.schema ++ m.upgrade⟩ ↔
        revision ∈ store.applied ∨ revision = m.revision := by
    intro revision
    unfold Store.applied
    simp
  refine h.insert hm hnew.not_applied (hnew.nodup_append h.unique) happlied ?_ (.refl _)
  exact fun parent hparent => (happlied parent).2 (.inl (hparents hparent))

/-- What `rollback` commits. -/
def downgradeChanges (revision : String) (effects : List E) : List (Change E) :=
  effects.map .remove ++ [.deleteRow revision]

theorem Sound.after_downgrade {effects : List E} (h : Sound runner store)
    (hm : m ∈ runner.migrations) (hdown : m.downgrade = some effects)
    (hold : m.revision ∈ store.applied)
    (hleaf : ∀ item ∈ runner.migrations, item.revision ∈ store.applied →
      m.revision ∉ item.parents) :
    Sound runner (store.after (downgradeChanges m.revision effects)) := by
  unfold downgradeChanges
  rw [after_append, after_remove]
  show Sound runner ⟨store.rows.filter (·.revision ≠ m.revision), store.schema.diff effects⟩
  have hunique : ((store.rows.filter (·.revision ≠ m.revision)).map (·.revision)).Nodup :=
    h.unique.sublist (List.filter_sublist.map _)
  refine h.delete hm hold hunique (fun revision => ?_) hleaf ?_
  · exact mem_applied_delete m.revision
  · have hmember : m ∈ runner.applied store := by
      unfold Runner.applied
      rw [List.mem_filter, decide_eq_true_eq]
      exact ⟨hm, hold⟩
    have hsub : effects.Subperm store.schema := by
      refine (m.undoes effects hdown).subperm.trans (List.Subperm.trans ?_ h.schema.symm.subperm)
      rw [List.flatMap_def]
      exact (List.sublist_flatten_of_mem (List.mem_map_of_mem hmember)).subperm
    have hdiff := List.subperm_append_diff_self_of_count_le fun effect _ => hsub.count_le effect
    refine hdiff.symm.trans (List.perm_append_comm.trans ?_)
    exact (m.undoes effects hdown).append_left _

theorem Sound.after_fail (h : Sound runner store) {row : Row} (hnew : store.Lacks row.revision)
    (hstate : row.state ≠ .applied) : Sound runner (store.after [.insertRow row]) := by
  refine h.same (hnew.nodup_append h.unique) (fun revision => ?_) rfl
  show revision ∈ Store.applied ⟨store.rows ++ [row], store.schema⟩ ↔ _
  unfold Store.applied
  simp [hstate]

/-- A revision whose row is not applied. -/
structure Store.Incomplete (store : Store E) (row : Row) : Prop where
  mem : row ∈ store.rows
  not_applied : row.state ≠ .applied

omit [DecidableEq E] in
theorem Sound.not_applied (h : Sound runner store) {row : Row} (hrow : store.Incomplete row) :
    row.revision ∉ store.applied := by
  rw [mem_applied]
  rintro ⟨other, hother, hstate, heq⟩
  have hsame := List.inj_on_of_nodup_map h.unique hother hrow.mem heq
  exact hrow.not_applied (hsame ▸ hstate)

theorem Sound.after_failAgain (h : Sound runner store) {row : Row} (hrow : store.Incomplete row) :
    Sound runner (store.after [.setState row.revision .failed]) := by
  refine h.same ?_ (fun revision => ?_) rfl
  · show (List.map _ (List.map _ _)).Nodup
    rw [map_revision_setState]
    exact h.unique
  · refine (mem_applied_setState hrow.mem revision).trans ?_
    constructor
    · rintro (⟨-, happlied⟩ | ⟨-, hfailed⟩)
      · exact happlied
      · cases hfailed
    · intro happlied
      refine .inl ⟨?_, happlied⟩
      rintro rfl
      exact h.not_applied hrow happlied

theorem Sound.after_forget (h : Sound runner store) {row : Row} (hrow : store.Incomplete row) :
    Sound runner (store.after [.deleteRow row.revision]) := by
  refine h.same (h.unique.sublist (List.filter_sublist.map _)) (fun revision => ?_) rfl
  refine (mem_applied_delete row.revision).trans ⟨fun hboth => hboth.1, fun happlied => ?_⟩
  refine ⟨happlied, ?_⟩
  rintro rfl
  exact h.not_applied hrow happlied

omit [DecidableEq E] in
/-- Where a revision that is not applied has its effects, it has none. -/
theorem Sound.upgrade_nil (h : Sound runner store) (hm : m ∈ runner.migrations)
    (hnew : m.revision ∉ store.applied) (hpresent : Present runner m.revision store) :
    m.upgrade = [] := by
  have hothers : (runner.applied store).filter (·.revision ≠ m.revision) = runner.applied store := by
    refine List.filter_eq_self.2 fun migration hmigration => ?_
    rw [decide_eq_true_eq]
    rintro heq
    exact hnew (heq ▸ of_decide_eq_true (List.mem_filter.1 hmigration).2)
  have hlength := (hpresent m hm rfl).length_le
  rw [hothers, List.length_append, ← h.schema.length_eq] at hlength
  exact List.eq_nil_of_length_eq_zero (by omega)

theorem Sound.after_assume (h : Sound runner store) (hm : m ∈ runner.migrations) {row : Row}
    (hrow : store.Incomplete row) (hrevision : row.revision = m.revision)
    (hpresent : Present runner m.revision store)
    (hparents : m.parents ⊆ store.applied ++ [m.revision]) :
    Sound runner (store.after [.setState m.revision .applied]) := by
  have hnew := h.not_applied hrow
  rw [hrevision] at hnew
  have happlied : ∀ revision,
      revision ∈ (store.after [.setState m.revision .applied]).applied ↔
        revision ∈ store.applied ∨ revision = m.revision := by
    intro revision
    rw [← hrevision]
    refine (mem_applied_setState hrow.mem revision).trans ?_
    constructor
    · rintro (⟨-, happlied⟩ | ⟨heq, -⟩)
      · exact .inl happlied
      · exact .inr heq
    · rintro (happlied | rfl)
      · refine .inl ⟨?_, happlied⟩
        rintro rfl
        exact h.not_applied hrow happlied
      · exact .inr ⟨rfl, rfl⟩
  refine h.insert hm hnew ?_ happlied ?_ ?_
  · show (List.map _ (List.map _ _)).Nodup
    rw [map_revision_setState]
    exact h.unique
  · intro parent hparent
    rw [happlied]
    simpa using hparents hparent
  · rw [h.upgrade_nil hm hnew hpresent, List.append_nil]
    exact .refl _

end Transactions

/-! ## Views -/

/-- The transaction of a call: none, one that has read nothing, or one that holds the lock row, on
what is committed, with its changes. -/
inductive Phase (E : Type) where
  | idle
  | opened (tx : Nat)
  | locked (tx : Nat) (base : Store E) (changes : List (Change E))

/-- What a call committed, and its transaction. -/
structure View (E : Type) where
  mine : List (List (Change E))
  phase : Phase E

section Views

variable [DecidableEq E]

/-- A callback only runs on a history without running and failed rows, and a commit leaves a sound
one. -/
def View.allows (runner : Runner E) (v : View E) : Request E → Prop
  | .lock tx => v.phase = .opened tx
  | .select tx => ∃ base changes, v.phase = .locked tx base changes
  | .execute tx change => ∃ base changes, v.phase = .locked tx base changes ∧
    (change.isStatement = true → ∀ row ∈ base.rows, row.state = .applied)
  | .commit tx => ∃ base changes, v.phase = .locked tx base changes ∧
    Sound runner (base.after changes)
  | _ => True

def View.after (runner : Runner E) (fact : Store E → Prop) (v : View E) (request : Request E)
    (result : Except Failure Answer) (v' : View E) : Prop :=
  match result with
  | .error _ => v' = ⟨v.mine, .idle⟩
  | .ok answer =>
    match request with
    | .ensureTable | .history => v' = v
    | .begin_ => v' = ⟨v.mine, .opened answer.getTransaction⟩
    | .lock tx => ∃ base, Sound runner base ∧ fact base ∧ v' = ⟨v.mine, .locked tx base []⟩
    | .select tx => v' = v ∧ ∀ base changes, v.phase = .locked tx base changes →
      answer.getRows = (base.after changes).rows
    | .execute tx change => ∃ base changes, v.phase = .locked tx base changes ∧
      v' = ⟨v.mine, .locked tx base (changes ++ [change])⟩
    | .commit tx => ∃ base changes, v.phase = .locked tx base changes ∧
      v' = ⟨changes :: v.mine, .idle⟩
    | .rollback _ => v' = ⟨v.mine, .idle⟩

/-- The phase is as the server has it, unless the transaction is lost. -/
def PhaseIs (s : Server E) (client : Nat) : Phase E → Prop
  | .idle => True
  | .opened tx => s.changes (client, tx) = none ∨ s.changes (client, tx) = some []
  | .locked tx base changes => s.changes (client, tx) = none ∨
    (s.changes (client, tx) = some changes ∧ s.lock = some (client, tx) ∧ s.store = base)

structure Knows (s : Server E) (client : Nat) (v : View E) : Prop where
  mine : ∀ changes ∈ v.mine, (client, changes) ∈ s.commits
  phase : PhaseIs s client v.phase

/-- What holds when a call takes the lock row. -/
def Fact (runner : Runner E) (calls : Nat → Call) (client : Nat) (store : Store E) : Prop :=
  ∀ revision, calls client = .recover revision true → Present runner revision store

def protocol (runner : Runner E) (calls : Nat → Call) (client : Nat) :
    Protocol (View E) (Request E) Answer Failure where
  allows := View.allows runner
  after := View.after runner (Fact runner calls client)

omit [DecidableEq E] in
theorem changes_drop (s : Server E) (handle other : Handle) :
    (s.drop handle).changes other = none ∨ (s.drop handle).changes other = s.changes other := by
  unfold Server.drop
  by_cases h : other = handle
  · exact .inl (by simp [h])
  · exact .inr (by simp [h])

omit [DecidableEq E] in
/-- A transaction that is gone changes nothing for the others. -/
theorem PhaseIs.drop {s : Server E} {client : Nat} {phase : Phase E} (h : PhaseIs s client phase)
    (handle : Handle) : PhaseIs (s.drop handle) client phase := by
  cases phase with
  | idle => trivial
  | opened tx =>
    rcases changes_drop s handle (client, tx) with hnone | hsame
    · exact .inl hnone
    · show _ ∨ _
      rw [hsame]
      exact h
  | locked tx base changes =>
    by_cases hself : (client, tx) = handle
    · refine .inl ?_
      unfold Server.drop
      simp [hself]
    · have hchanges : (s.drop handle).changes (client, tx) = s.changes (client, tx) := by
        unfold Server.drop
        simp [hself]
      show _ ∨ _
      rw [hchanges]
      refine h.imp id fun ⟨hsome, hlock, hstore⟩ => ⟨hsome, ?_, hstore⟩
      show (if s.lock = some handle then none else s.lock) = _
      rw [hlock, if_neg fun heq => hself (Option.some.inj heq)]

omit [DecidableEq E] in
theorem PhaseIs.keep {s s' : Server E} {client : Nat} {phase : Phase E}
    (h : PhaseIs s client phase)
    (hchanges : ∀ tx, s'.changes (client, tx) = s.changes (client, tx))
    (hlocked : ∀ tx, s.lock = some (client, tx) →
      s'.lock = some (client, tx) ∧ s'.store = s.store) : PhaseIs s' client phase := by
  cases phase with
  | idle => trivial
  | opened tx =>
    show _ ∨ _
    rw [hchanges]
    exact h
  | locked tx base changes =>
    show _ ∨ _
    rw [hchanges]
    refine h.imp id fun ⟨hsome, hlock, hstore⟩ => ?_
    obtain ⟨hlock', hstore'⟩ := hlocked tx hlock
    exact ⟨hsome, hlock', hstore'.trans hstore⟩

omit [DecidableEq E] in
theorem ne_of_client {i j : Nat} (h : j ≠ i) (tx tx' : Nat) : (j, tx) ≠ (i, tx') :=
  fun heq => h (Prod.mk.inj heq).1

/-- A request that is performed leaves what the other calls know. -/
theorem knows_others {runner : Runner E} {s s' : Server E} {i j : Nat} {v w : View E}
    {request : Request E} {answer : Answer} (hv : Knows s i v) (hallows : v.allows runner request)
    (hperform : s.perform i request = some (answer, s')) (hj : j ≠ i) (hw : Knows s j w) :
    Knows s' j w := by
  cases request with
  | ensureTable | history =>
    cases hperform
    exact hw
  | begin_ =>
    cases hperform
    refine ⟨hw.mine, hw.phase.keep (fun tx => ?_) fun tx hlock => ⟨hlock, rfl⟩⟩
    exact Function.update_of_ne (ne_of_client hj _ _) _ _
  | lock tx =>
    obtain ⟨changes, -, hperform⟩ := Option.bind_eq_some_iff.1 hperform
    split at hperform
    next hfree =>
      cases hperform
      refine ⟨hw.mine, hw.phase.keep (fun _ => rfl) fun tx' hlock => ?_⟩
      rcases hfree with hnone | hown
      · cases hnone.symm.trans hlock
      · exact absurd (Option.some.inj (hlock.symm.trans hown)) (ne_of_client hj _ _)
    next => cases hperform
  | select tx =>
    obtain ⟨changes, -, hperform⟩ := Option.bind_eq_some_iff.1 hperform
    cases hperform
    exact hw
  | execute tx change =>
    obtain ⟨changes, -, hperform⟩ := Option.bind_eq_some_iff.1 hperform
    split at hperform
    next =>
      cases hperform
      refine ⟨hw.mine, hw.phase.keep (fun tx' => ?_) fun tx' hlock => ⟨hlock, rfl⟩⟩
      exact Function.update_of_ne (ne_of_client hj _ _) _ _
    next => cases hperform
  | commit tx =>
    obtain ⟨changes, hchanges, hperform⟩ := Option.bind_eq_some_iff.1 hperform
    cases hperform
    obtain ⟨base, mine, hphase, -⟩ := hallows
    refine ⟨fun c hc => List.mem_cons_of_mem _ (hw.mine c hc), hw.phase.keep (fun tx' => ?_) ?_⟩
    · exact Function.update_of_ne (ne_of_client hj _ _) _ _
    · intro tx' hlock
      -- the lock row is held by the transaction that commits
      have hknows := hv.phase
      rw [hphase] at hknows
      rcases hknows with hnone | ⟨-, hown, -⟩
      · cases hchanges.symm.trans hnone
      · exact absurd (Option.some.inj (hlock.symm.trans hown)) (ne_of_client hj _ _)
  | rollback tx =>
    obtain ⟨changes, -, hperform⟩ := Option.bind_eq_some_iff.1 hperform
    cases hperform
    exact ⟨hw.mine, hw.phase.drop _⟩

/-- What a call knows once its request is performed. -/
theorem knows_performed {runner : Runner E} {calls : Nat → Call} {s s' : Server E} {i : Nat}
    {v : View E} {request : Request E} {answer : Answer} (hs : Sound runner s.store)
    (hv : Knows s i v) (hallows : v.allows runner request)
    (htruthful : Truthful runner calls s i request)
    (hperform : s.perform i request = some (answer, s')) :
    Sound runner s'.store ∧ ∃ v', v.after runner (Fact runner calls i) request (.ok answer) v' ∧
      Knows s' i v' := by
  cases request with
  | ensureTable | history =>
    cases hperform
    exact ⟨hs, v, rfl, hv⟩
  | begin_ =>
    cases hperform
    exact ⟨hs, _, rfl, hv.mine, .inr (Function.update_self _ _ _)⟩
  | lock tx =>
    obtain ⟨changes, hchanges, hperform⟩ := Option.bind_eq_some_iff.1 hperform
    split at hperform
    next =>
      cases hperform
      have hknows := hv.phase
      rw [show v.phase = .opened tx from hallows] at hknows
      refine ⟨hs, _, ⟨s.store, hs, htruthful, rfl⟩, hv.mine, ?_⟩
      rcases hknows with hnone | hempty
      · exact .inl hnone
      · exact .inr ⟨hempty, rfl, rfl⟩
    next => cases hperform
  | select tx =>
    obtain ⟨changes, hchanges, hperform⟩ := Option.bind_eq_some_iff.1 hperform
    cases hperform
    refine ⟨hs, v, ⟨rfl, fun base mine hphase => ?_⟩, hv⟩
    have hknows := hv.phase
    rw [hphase] at hknows
    rcases hknows with hnone | ⟨hsome, -, hstore⟩
    · cases hchanges.symm.trans hnone
    · cases hchanges.symm.trans hsome
      rw [← hstore]
      rfl
  | execute tx change =>
    obtain ⟨changes, hchanges, hperform⟩ := Option.bind_eq_some_iff.1 hperform
    split at hperform
    next =>
      cases hperform
      obtain ⟨base, mine, hphase, -⟩ := hallows
      have hknows := hv.phase
      rw [hphase] at hknows
      refine ⟨hs, _, ⟨base, mine, hphase, rfl⟩, hv.mine, ?_⟩
      rcases hknows with hnone | ⟨hsome, hlock, hstore⟩
      · cases hchanges.symm.trans hnone
      · cases hchanges.symm.trans hsome
        exact .inr ⟨Function.update_self _ _ _, hlock, hstore⟩
    next => cases hperform
  | commit tx =>
    obtain ⟨changes, hchanges, hperform⟩ := Option.bind_eq_some_iff.1 hperform
    cases hperform
    obtain ⟨base, mine, hphase, hsound⟩ := hallows
    have hknows := hv.phase
    rw [hphase] at hknows
    rcases hknows with hnone | ⟨hsome, -, hstore⟩
    · cases hchanges.symm.trans hnone
    · cases hchanges.symm.trans hsome
      refine ⟨hstore ▸ hsound, _, ⟨base, changes, hphase, rfl⟩, ?_, trivial⟩
      exact List.forall_mem_cons.2
        ⟨List.mem_cons_self, fun c hc => List.mem_cons_of_mem _ (hv.mine c hc)⟩
  | rollback tx =>
    obtain ⟨changes, -, hperform⟩ := Option.bind_eq_some_iff.1 hperform
    cases hperform
    exact ⟨hs, _, rfl, hv.mine, trivial⟩

theorem commits_subset {s s' : Server E} {i : Nat} {request : Request E}
    {answer : Answer} (h : s.perform i request = some (answer, s')) : s.commits ⊆ s'.commits := by
  cases request with
  | ensureTable | history | begin_ =>
    cases h
    exact List.Subset.refl _
  | lock tx | execute tx change =>
    obtain ⟨changes, -, h⟩ := Option.bind_eq_some_iff.1 h
    split at h
    next =>
      cases h
      exact List.Subset.refl _
    next => cases h
  | select tx | rollback tx =>
    obtain ⟨changes, -, h⟩ := Option.bind_eq_some_iff.1 h
    cases h
    exact List.Subset.refl _
  | commit tx =>
    obtain ⟨changes, -, h⟩ := Option.bind_eq_some_iff.1 h
    cases h
    exact List.subset_cons_self _ _

theorem respects (runner : Runner E) (calls : Nat → Call) :
    (database : Service (Server E) (Request E) Answer Handle).Respects (Truthful runner calls)
      (protocol runner calls) (fun s => Sound runner s.store) Knows where
  performed _ _ _ _ _ _ hs hv hallows htruthful hperform :=
    knows_performed hs hv hallows htruthful hperform
  failed _ _ v _ _ _ hv _ :=
    ⟨⟨v.mine, .idle⟩, rfl, ⟨hv.mine, trivial⟩,
      fun _ _ hperform => ⟨fun c hc => commits_subset hperform (hv.mine c hc), trivial⟩⟩
  others _ _ _ _ _ _ _ hv hallows hperform _ _ hj hw := knows_others hv hallows hperform hj hw
  disturbed _ handle hs := ⟨hs, fun _ _ hv => ⟨hv.mine, hv.phase.drop handle⟩⟩

end Views

/-! ## Statements -/

section Programs

variable [DecidableEq E] {calls : Nat → Call} {i tx : Nat} {v : View E}
  {mine : List (List (Change E))} {base : Store E} {changes : List (Change E)}

theorem yields_request {q : Request E} {post : View E → Unit → Prop} (hallows : v.allows runner q)
    (hafter : ∀ v' answer, v.after runner (Fact runner calls i) q (.ok answer) v' → post v' ()) :
    (protocol runner calls i).Yields v (request q) post :=
  (yields_send hallows fun answer v' h => hafter v' answer h).bind fun _ _ h => yields_pure h

/-- The transaction is rolled back, and the error goes on. -/
theorem yields_abandon {α : Type} {e : Failure} {post : View E → α → Prop} :
    (protocol runner calls i).Yields v
      (do
        suppress (request (.rollback tx))
        throw e) post := by
  have hrollback : (protocol runner calls i).Yields v (request (.rollback tx)) fun _ _ => True :=
    yields_request trivial fun _ _ _ => trivial
  exact hrollback.suppress.bind fun _ _ _ => yields_throw

theorem yields_begin :
    (protocol runner calls i).Yields v begin_ fun v' tx => v' = ⟨v.mine, .opened tx⟩ :=
  (yields_send trivial fun _ _ h => h).bind fun _ _ h => yields_pure h

/-- A body in a transaction of its own. -/
theorem yields_transaction {α : Type} {body : Nat → Run E α} {post : View E → α → Prop}
    (h : ∀ tx, (protocol runner calls i).Yields ⟨v.mine, .opened tx⟩ (body tx) post) :
    (protocol runner calls i).Yields v (transaction body) post := by
  refine yields_begin.bind fun v' tx hv' => ?_
  subst hv'
  refine (Yields.attempt (h tx)).bind fun v' result hresult => ?_
  cases result with
  | ok a => exact yields_pure (hresult a rfl)
  | error e => exact yields_abandon

theorem yields_lockHistory :
    (protocol runner calls i).Yields ⟨mine, .opened tx⟩ (lockHistory tx) fun v' rows =>
      ∃ base, Sound runner base ∧ Fact runner calls i base ∧ rows = base.rows ∧
        v' = ⟨mine, .locked tx base []⟩ := by
  have hlock : (protocol runner calls i).Yields ⟨mine, .opened tx⟩ (request (.lock tx))
      fun v' _ => ∃ base, Sound runner base ∧ Fact runner calls i base ∧
        v' = ⟨mine, .locked tx base []⟩ :=
    yields_request rfl fun _ _ h => h
  refine hlock.bind fun v' _ ⟨base, hsound, hfact, hv'⟩ => ?_
  subst hv'
  have hselect : (protocol runner calls i).Yields ⟨mine, .locked tx base []⟩ (send (.select tx))
      fun v' answer => v' = ⟨mine, .locked tx base []⟩ ∧ answer.getRows = base.rows :=
    yields_send ⟨base, [], rfl⟩ fun answer v' h => ⟨h.1, h.2 base [] rfl⟩
  exact hselect.bind fun v' answer ⟨hv', hrows⟩ =>
    yields_pure ⟨base, hsound, hfact, hrows, hv'⟩

theorem yields_execute {change : Change E}
    (hquiet : change.isStatement = true → ∀ row ∈ base.rows, row.state = .applied) :
    (protocol runner calls i).Yields ⟨mine, .locked tx base changes⟩
      (request (.execute tx change)) fun v' _ =>
        v' = ⟨mine, .locked tx base (changes ++ [change])⟩ := by
  refine yields_request ⟨base, changes, rfl, hquiet⟩ fun v' _ h => ?_
  obtain ⟨base', changes', heq, hv'⟩ := h
  cases heq
  exact hv'

theorem yields_executeAll {more : List (Change E)}
    (hquiet : ∀ row ∈ base.rows, row.state = .applied) :
    (protocol runner calls i).Yields ⟨mine, .locked tx base changes⟩ (executeAll tx more)
      fun v' _ => v' = ⟨mine, .locked tx base (changes ++ more)⟩ := by
  induction more generalizing changes with
  | nil =>
    refine yields_pure ?_
    rw [List.append_nil]
  | cons change more ih =>
    refine (yields_execute fun _ => hquiet).bind fun v' _ hv' => ?_
    subst hv'
    refine ih.imp fun v' _ hv' => ?_
    rw [hv', List.append_assoc]
    rfl

theorem yields_commit (hsound : Sound runner (base.after changes)) :
    (protocol runner calls i).Yields ⟨mine, .locked tx base changes⟩ (request (.commit tx))
      fun v' _ => v' = ⟨changes :: mine, .idle⟩ := by
  refine yields_request ⟨base, changes, rfl, hsound⟩ fun v' _ h => ?_
  obtain ⟨base', changes', heq, hv'⟩ := h
  cases heq
  exact hv'

/-! ## Calls -/

omit [DecidableEq E] in
/-- A history that is read has no running and no failed row. -/
theorem historyRows_eq_ok {migrations : List (Migration E)} {rows : List Row}
    {history result : List String} (h : historyRows migrations rows history = .ok result) :
    result = history ++ rows.map (·.revision) ∧ ∀ row ∈ rows, row.state = .applied := by
  induction rows generalizing history with
  | nil =>
    cases h
    exact ⟨(List.append_nil _).symm, fun row hrow => (by cases hrow)⟩
  | cons row rows ih =>
    rw [historyRows] at h
    obtain ⟨⟨⟩, -, h⟩ := bind_eq_ok.1 h
    obtain ⟨migration, -, h⟩ := bind_eq_ok.1 h
    obtain ⟨⟨⟩, -, h⟩ := bind_eq_ok.1 h
    obtain ⟨⟨⟩, hstate, h⟩ := bind_eq_ok.1 h
    obtain ⟨hresult, hrows⟩ := ih h
    refine ⟨?_, List.forall_mem_cons.2 ⟨not_not.1 (failIf_eq_ok.1 hstate), hrows⟩⟩
    rw [hresult, List.append_assoc]
    rfl

omit [DecidableEq E] in
theorem migrationHistory_eq_ok {migrations : List (Migration E)} {store : Store E}
    {history : List String} (h : migrationHistory migrations store.rows = .ok history) :
    history = store.rows.map (·.revision) ∧ history = store.applied ∧
      ∀ row ∈ store.rows, row.state = .applied := by
  unfold migrationHistory at h
  obtain ⟨history', hrows, h⟩ := bind_eq_ok.1 h
  obtain ⟨⟨⟩, -, h⟩ := bind_eq_ok.1 h
  cases h
  obtain ⟨hhistory, hquiet⟩ := historyRows_eq_ok hrows
  refine ⟨hhistory, ?_, hquiet⟩
  have hall : store.rows.filter (·.state = .applied) = store.rows :=
    List.filter_eq_self.2 fun row hrow => decide_eq_true (hquiet row hrow)
  unfold Store.applied
  rw [hall]
  exact hhistory

omit [DecidableEq E] in
theorem validateApplied_eq_ok {migrations : List (Migration E)} {applied : List String} {u : Unit}
    (h : validateApplied migrations applied = .ok u) :
    ∀ migration ∈ migrations, migration.revision ∈ applied → migration.parents ⊆ applied := by
  unfold validateApplied at h
  obtain ⟨⟨⟩, -, hclosed⟩ := bind_eq_ok.1 h
  have hnone := failIf_eq_ok.1 hclosed
  intro migration hmigration hrevision
  by_contra hparents
  exact hnone (List.any_eq_true.2 ⟨migration, hmigration, decide_eq_true ⟨hrevision, hparents⟩⟩)

/-- The upgrade may start. -/
structure Ready (runner : Runner E) (m : Migration E) (base : Store E) : Prop where
  sound : Sound runner base
  quiet : ∀ row ∈ base.rows, row.state = .applied
  lacks : base.Lacks m.revision
  parents : m.parents ⊆ base.applied

theorem yields_startMigration :
    (protocol runner calls i).Yields ⟨mine, .opened tx⟩ (startMigration runner m tx)
      fun v' started => mine ⊆ v'.mine ∧ (started = true → ∃ base, Ready runner m base ∧
        v' = ⟨mine, .locked tx base [.insertRow ⟨m.revision, m.checksum, .running⟩]⟩) := by
  refine yields_lockHistory.bind fun v' rows ⟨base, hsound, _, hrows, hv'⟩ => ?_
  subst hrows hv'
  refine yields_ofResult_bind fun history hhistory => ?_
  obtain ⟨hall, happlied, hquiet⟩ := migrationHistory_eq_ok hhistory
  split
  next =>
    refine (yields_commit (by simpa using hsound)).bind fun v' _ hv' => yields_pure ?_
    subst hv'
    exact ⟨List.subset_cons_self _ _, fun h => (by cases h)⟩
  next hnew =>
    refine yields_ofResult_bind fun _ hparents => ?_
    refine (yields_execute fun h => (by cases h)).bind fun v' _ hv' => yields_pure ?_
    subst hv'
    have hready : Ready runner m base := by
      refine ⟨hsound, hquiet, fun row hrow heq => hnew ?_, ?_⟩
      · rw [hall, ← heq]
        exact List.mem_map_of_mem hrow
      · rw [← happlied]
        exact not_not.1 (failIf_eq_ok.1 hparents)
    exact ⟨List.Subset.refl _, fun _ => ⟨base, hready, rfl⟩⟩

/-- A commit of this call applied the revision. -/
def Own (mine : List (List (Change E))) (revision : String) : Prop :=
  ∃ changes ∈ mine, .setState revision .applied ∈ changes

theorem yields_upgradeMigration (hm : m ∈ runner.migrations) (hready : Ready runner m base) :
    (protocol runner calls i).Yields
      ⟨mine, .locked tx base [.insertRow ⟨m.revision, m.checksum, .running⟩]⟩
      (upgradeMigration m tx) fun v' _ => mine ⊆ v'.mine ∧ Own v'.mine m.revision := by
  refine (yields_executeAll hready.quiet).bind fun v' _ hv' => ?_
  subst hv'
  refine (yields_execute fun h => (by cases h)).bind fun v' _ hv' => ?_
  subst hv'
  have hsound := hready.sound.after_upgrade hm hready.lacks hready.parents
  refine (yields_commit hsound).imp fun v' _ hv' => ?_
  subst hv'
  exact ⟨List.subset_cons_self _ _, _, List.mem_cons_self,
    List.mem_append_right _ (List.mem_singleton_self _)⟩

omit [DecidableEq E] in
theorem lacks_of_find? {revision : String}
    (h : base.rows.find? (·.revision = revision) = none) : base.Lacks revision := by
  intro row hrow
  have := List.find?_eq_none.1 h row hrow
  simpa using this

omit [DecidableEq E] in
theorem mem_of_find? {revision : String} {row : Row}
    (h : base.rows.find? (·.revision = revision) = some row) :
    row ∈ base.rows ∧ row.revision = revision :=
  ⟨List.mem_of_find?_eq_some h, by simpa using List.find?_some h⟩

theorem yields_recordWithin :
    (protocol runner calls i).Yields ⟨mine, .opened tx⟩ (recordWithin m tx) fun _ _ => True := by
  refine yields_lockHistory.bind fun v' rows ⟨base, hsound, _, hrows, hv'⟩ => ?_
  subst hrows hv'
  cases hfind : base.rows.find? (·.revision = m.revision) with
  | none =>
    refine (yields_execute fun h => (by cases h)).bind fun v' _ hv' => ?_
    subst hv'
    have hfailed : Sound runner (base.after [.insertRow ⟨m.revision, m.checksum, .failed⟩]) :=
      hsound.after_fail (lacks_of_find? hfind) (fun h => (by cases h))
    exact (yields_commit hfailed).imp fun _ _ _ => trivial
  | some target =>
    obtain ⟨htarget, hrevision⟩ := mem_of_find? hfind
    refine yields_ofResult_bind fun _ _ => ?_
    split
    next => exact (yields_commit hsound).imp fun _ _ _ => trivial
    next hstate =>
      refine (yields_execute fun h => (by cases h)).bind fun v' _ hv' => ?_
      subst hv'
      have hfailed := hsound.after_failAgain ⟨htarget, hstate⟩
      rw [hrevision] at hfailed
      exact (yields_commit hfailed).imp fun _ _ _ => trivial

theorem yields_recordFailure :
    (protocol runner calls i).Yields v (recordFailure m) fun _ _ => True :=
  yields_transaction fun _ => yields_recordWithin

theorem yields_applyOne (hm : m ∈ runner.migrations) :
    (protocol runner calls i).Yields v (applyOne runner m) fun v' applied =>
      v.mine ⊆ v'.mine ∧ (applied = true → Own v'.mine m.revision) := by
  refine yields_begin.bind fun v' tx hv' => ?_
  subst hv'
  refine yields_startMigration.attempt.bind fun v' result hresult => ?_
  cases result with
  | error e => exact yields_abandon
  | ok started =>
    obtain ⟨hmine, hstarted⟩ := hresult started rfl
    cases started with
    | false => exact yields_pure ⟨hmine, fun h => (by cases h)⟩
    | true =>
      obtain ⟨base, hready, rfl⟩ := hstarted rfl
      refine (yields_upgradeMigration hm hready).attempt.bind fun v' result hresult => ?_
      cases result with
      | ok _ =>
        obtain ⟨hmine, hown⟩ := hresult () rfl
        exact yields_pure ⟨hmine, fun _ => hown⟩
      | error e =>
        have hrollback : (protocol runner calls i).Yields v' (request (.rollback tx))
            fun _ _ => True :=
          yields_request trivial fun _ _ _ => trivial
        exact hrollback.suppress.bind fun _ _ _ =>
          yields_recordFailure.suppress.bind fun _ _ _ => yields_throw

theorem yields_applyAll {migrations : List (Migration E)} {completed : List String}
    (hmigrations : migrations ⊆ runner.migrations)
    (hcompleted : ∀ revision ∈ completed, Own v.mine revision) :
    (protocol runner calls i).Yields v (applyAll runner migrations completed)
      fun v' revisions => ∀ revision ∈ revisions, Own v'.mine revision := by
  induction migrations generalizing v completed with
  | nil => exact yields_pure hcompleted
  | cons m migrations ih =>
    obtain ⟨hm, hmigrations⟩ := List.cons_subset.1 hmigrations
    refine (yields_applyOne hm).bind fun v' applied ⟨hmine, happlied⟩ => ?_
    refine ih hmigrations fun revision hrevision => ?_
    have hold : ∀ revision ∈ completed, Own v'.mine revision := by
      intro revision hrevision
      obtain ⟨changes, hchanges, hset⟩ := hcompleted revision hrevision
      exact ⟨changes, hmine hchanges, hset⟩
    cases applied with
    | false => exact hold revision hrevision
    | true =>
      rcases List.mem_append.1 hrevision with hrevision | hrevision
      · exact hold revision hrevision
      · rw [List.mem_singleton.1 hrevision]
        exact happlied rfl

theorem yields_ensureTable :
    (protocol runner calls i).Yields v (request .ensureTable) fun v' _ => v' = v :=
  yields_request trivial fun _ _ h => h

theorem yields_queryHistory :
    (protocol runner calls i).Yields v queryHistory fun v' _ => v' = v := by
  have hhistory : (protocol runner calls i).Yields v (send .history) fun v' _ => v' = v :=
    yields_send trivial fun _ _ h => h
  exact hhistory.bind fun _ _ hv' => yields_pure hv'

theorem yields_apply :
    (protocol runner calls i).Yields v (apply runner) fun v' revisions =>
      ∀ revision ∈ revisions, Own v'.mine revision := by
  refine yields_ensureTable.bind fun v' _ _ => yields_queryHistory.bind fun v' rows _ => ?_
  refine yields_ofResult_bind fun _ _ => ?_
  exact yields_applyAll (List.Subset.refl _) fun _ h => (by cases h)

theorem yields_downgradeWithin {effects : List E} (hm : m ∈ runner.migrations)
    (hdown : m.downgrade = some effects) :
    (protocol runner calls i).Yields ⟨mine, .opened tx⟩
      (downgradeWithin runner m.revision effects tx) fun _ _ => True := by
  refine yields_lockHistory.bind fun v' rows ⟨base, hsound, _, hrows, hv'⟩ => ?_
  subst hrows hv'
  refine yields_ofResult_bind fun current hcurrent => ?_
  obtain ⟨-, happlied, hquiet⟩ := migrationHistory_eq_ok hcurrent
  subst happlied
  split
  next => exact (yields_commit hsound).bind fun _ _ _ => yields_pure trivial
  next hold =>
    refine yields_ofResult_bind fun _ hleaf => ?_
    have hleaf : ∀ item ∈ runner.migrations, item.revision ∈ base.applied →
        m.revision ∉ item.parents := by
      have hchild := failIf_eq_ok.1 hleaf
      unfold hasChild at hchild
      intro item hitem happlied hparent
      exact hchild (List.any_eq_true.2 ⟨item, hitem, decide_eq_true ⟨hparent, happlied⟩⟩)
    refine (yields_executeAll hquiet).bind fun v' _ hv' => ?_
    subst hv'
    refine (yields_execute fun h => (by cases h)).bind fun v' _ hv' => ?_
    subst hv'
    have hdone := hsound.after_downgrade hm hdown (not_not.1 hold) hleaf
    exact (yields_commit hdone).bind fun _ _ _ => yields_pure trivial

theorem yields_rollbackOne {revision : String} {applied : List String} :
    (protocol runner calls i).Yields v (rollbackOne runner revision applied) fun _ _ => True := by
  refine yields_ofResult_bind fun _ _ => yields_ofResult_bind fun migration hmigration => ?_
  refine yields_ofResult_bind fun effects heffects => ?_
  have hfind := okOr_eq_ok.1 hmigration
  have hrevision : migration.revision = revision := by simpa using List.find?_some hfind
  subst hrevision
  exact yields_transaction fun _ =>
    yields_downgradeWithin (List.mem_of_find?_eq_some hfind) (okOr_eq_ok.1 heffects)

theorem yields_rollbackAll {revisions applied completed : List String} :
    (protocol runner calls i).Yields v (rollbackAll runner revisions applied completed)
      fun _ _ => True := by
  induction revisions generalizing v applied completed with
  | nil => exact yields_pure trivial
  | cons revision revisions ih =>
    refine yields_rollbackOne.bind fun v' removed _ => ?_
    split
    next => exact ih
    next => exact ih

theorem yields_rollback {steps : Int} :
    (protocol runner calls i).Yields v (rollback runner steps) fun _ _ => True := by
  refine yields_ofResult_bind fun _ _ => yields_ensureTable.bind fun _ _ _ => ?_
  refine yields_queryHistory.bind fun _ _ _ => yields_ofResult_bind fun _ _ => ?_
  exact yields_rollbackAll

theorem yields_recoverWithin {assumeApplied : Bool} (hm : m ∈ runner.migrations)
    (hcall : calls i = .recover m.revision assumeApplied) :
    (protocol runner calls i).Yields ⟨mine, .opened tx⟩
      (recoverWithin runner m assumeApplied tx) fun _ _ => True := by
  refine yields_lockHistory.bind fun v' rows ⟨base, hsound, hfact, hrows, hv'⟩ => ?_
  subst hrows hv'
  refine yields_ofResult_bind fun target htarget => yields_ofResult_bind fun _ _ => ?_
  refine yields_ofResult_bind fun _ hstate => yields_ofResult_bind fun _ hvalid => ?_
  obtain ⟨htarget, hrevision⟩ := mem_of_find? (okOr_eq_ok.1 htarget)
  have hrow : base.Incomplete target := ⟨htarget, failIf_eq_ok.1 hstate⟩
  refine (yields_execute fun h => ?_).bind fun v' _ hv' => ?_
  · cases assumeApplied <;> cases h
  subst hv'
  refine (yields_commit ?_).imp fun _ _ _ => trivial
  cases assumeApplied with
  | false =>
    have hforget := hsound.after_forget hrow
    rw [hrevision] at hforget
    exact hforget
  | true =>
    refine hsound.after_assume hm hrow hrevision (hfact _ hcall) ?_
    exact validateApplied_eq_ok hvalid m hm (List.mem_append_right _ (List.mem_singleton_self _))

theorem yields_recover {revision : String} {assumeApplied : Bool}
    (hcall : calls i = .recover revision assumeApplied) :
    (protocol runner calls i).Yields v (recover runner revision assumeApplied) fun _ _ => True := by
  refine yields_ofResult_bind fun migration hmigration => yields_ensureTable.bind fun _ _ _ => ?_
  have hfind := okOr_eq_ok.1 hmigration
  have hrevision : migration.revision = revision := by simpa using List.find?_some hfind
  subst hrevision
  exact yields_transaction fun _ =>
    yields_recoverWithin (List.mem_of_find?_eq_some hfind) hcall

theorem yields_program (i : Nat) :
    (protocol runner calls i).Yields v ((calls i).program runner) fun v' revisions =>
      calls i = .apply → ∀ revision ∈ revisions, Own v'.mine revision := by
  cases hcall : calls i with
  | apply => exact yields_apply.imp fun _ _ h _ => h
  | rollback steps => exact yields_rollback.imp fun _ _ _ h => (by cases h)
  | recover revision assumeApplied =>
    exact (yields_recover hcall).bind fun _ _ _ => yields_pure fun h => (by cases h)

/-! ## Every run -/

omit [DecidableEq E] in
theorem sound_empty (runner : Runner E) : Sound runner (emptyServer : Server E).store := by
  refine ⟨List.nodup_nil, List.nil_subset _, fun _ _ h => (by cases h), ?_⟩
  have hnone : runner.applied (emptyServer : Server E).store = [] :=
    List.filter_eq_nil_iff.2 fun _ _ h => (by cases of_decide_eq_true h)
  rw [hnone]
  exact .refl _

/-- Events that serve no `recover` with `assume_applied` are truthful. -/
theorem within_others {events : List (Occurrence Failure Handle)}
    (h : ∀ i served, .serve i served ∈ events → ∀ revision, calls i ≠ .recover revision true)
    (c : Clients (Server E) (Request E) Answer Failure (Except Failure (List String))) :
    database.Within (Truthful runner calls) c events := by
  induction events generalizing c with
  | nil => trivial
  | cons event events ih =>
    refine ⟨fun i served request next heq _ => ?_, fun c' _ =>
      ih (fun i served hmem => h i served (List.mem_cons_of_mem _ hmem)) c'⟩
    subst heq
    cases request with
    | lock tx => exact fun revision hcall => absurd hcall (h i served List.mem_cons_self revision)
    | ensureTable | history | begin_ | select tx | execute tx change | commit tx | rollback tx =>
      trivial

/-- **Whatever the interleaving and the failures, the history stays sound, callbacks run on a
complete history, and `apply` returns what it committed.** -/
theorem run_safe (runner : Runner E) (calls : Nat → Call) (events : List (Occurrence Failure Handle))
    (c : Clients (Server E) (Request E) Answer Failure (Except Failure (List String)))
    (hrun : database.run (clients runner calls) events = some c)
    (htruthful : database.Within (Truthful runner calls) (clients runner calls) events) :
    Safe runner calls c := by
  have hstart : Service.Holds (protocol runner calls) (fun s => Sound runner s.store) Knows
      (fun i v result => ∀ revisions, result = .ok revisions →
        calls i = .apply → ∀ revision ∈ revisions, Own v.mine revision)
      (clients runner calls) :=
    ⟨sound_empty runner, fun i => ⟨⟨[], .idle⟩, ⟨fun _ h => (by cases h), trivial⟩,
      yields_program i⟩⟩
  obtain ⟨hsound, hclients⟩ := (respects runner calls).run hrun htruthful hstart
  refine ⟨hsound, ?_, ?_⟩
  · intro i tx change next hprogram hstatement halive
    obtain ⟨v, hknows, hensures⟩ := hclients i
    rw [hprogram] at hensures
    obtain ⟨⟨base, changes, hphase, hquiet⟩, -⟩ := hensures
    have hphaseIs := hknows.phase
    rw [hphase] at hphaseIs
    rcases hphaseIs with hnone | ⟨-, -, hstore⟩
    · rw [hnone] at halive
      cases halive
    · rw [hstore]
      exact hquiet hstatement
  · intro i revisions hcall hprogram revision hrevision
    obtain ⟨v, hknows, hensures⟩ := hclients i
    rw [hprogram] at hensures
    obtain ⟨changes, hchanges, hset⟩ := hensures revisions rfl hcall revision hrevision
    exact ⟨changes, hknows.mine changes hchanges, hset⟩

end Programs

/-! ## Two revisions, applied by two calls -/

def checksum : String := String.ofList (List.replicate 64 '0')

def firstRevision : Migration Nat := ⟨"a", [], [1], some [1], checksum, by simp⟩

def secondRevision : Migration Nat := ⟨"b", ["a"], [2, 3], none, checksum, by simp⟩

def twoRevisions : Runner Nat where
  given := [secondRevision, firstRevision]
  migrations := [firstRevision, secondRevision]
  valid := by
    simp only [List.mem_cons, List.not_mem_nil, or_false]
    rintro migration (rfl | rfl)
    · decide +kernel
    · decide +kernel
  accepted := rfl

/-- A call loses the acknowledgement of its first commit, another recovers that revision as applied,
and a third applies the rest. -/
def recovering : Nat → Call
  | 1 => .recover "a" true
  | _ => .apply

def lostAcknowledgement : List (Occurrence Failure Handle) :=
  List.replicate 8 (.serve 0 .answered) ++
    [.serve 0 (.unacknowledged (.database 0)), .serve 0 (.refused (.database 1))] ++
    List.replicate 4 (.serve 0 .answered)

def recovery : List (Occurrence Failure Handle) := List.replicate 5 (.serve 1 .answered)

def rest : List (Occurrence Failure Handle) := List.replicate 14 (.serve 2 .answered)

/-- Where its recovery takes the lock row, the revision that was committed has its effects. -/
theorem present_first {store : Store Nat} (happlied : store.applied = ["a"])
    (hschema : store.schema = [1]) : Present twoRevisions "a" store := by
  have hothers : (twoRevisions.applied store).filter (·.revision ≠ "a") = [] := by
    unfold Runner.applied
    rw [happlied]
    rfl
  intro migration hmigration hrevision
  rw [hothers, hschema]
  rcases List.mem_cons.1 hmigration with rfl | hmigration
  · exact .refl _
  · rw [List.mem_singleton.1 hmigration] at hrevision
    exact absurd hrevision (by decide)

theorem within_recovery (c : Clients (Server Nat) (Request Nat) Answer Failure
      (Except Failure (List String)))
    (hrun : database.run (clients twoRevisions recovering) lostAcknowledgement = some c) :
    database.Within (Truthful twoRevisions recovering) c recovery := by
  have hlock : Truthful twoRevisions recovering c.shared 1 (.lock 0) := by
    cases hrun
    intro revision hrevision
    cases hrevision
    exact present_first rfl rfl
  cases hrun
  refine .serve rfl trivial rfl (.serve rfl trivial rfl (.serve rfl hlock rfl ?_))
  exact .serve rfl trivial rfl (.serve rfl trivial rfl trivial)

theorem recovering_safe : ∃ c,
    database.run (clients twoRevisions recovering) (lostAcknowledgement ++ (recovery ++ rest)) =
        some c ∧
      c.program 0 = .done (.error (.database 0)) ∧
      c.program 1 = .done (.error (.state "recover rifiuta una migrazione gia applicata")) ∧
      c.program 2 = .done (.ok ["b"]) ∧ Safe twoRevisions recovering c := by
  have happly : ∀ i served, .serve i served ∈ lostAcknowledgement ++ rest →
      ∀ revision, recovering i ≠ .recover revision true := by
    intro i served hmem revision
    simp only [lostAcknowledgement, rest, List.mem_append, List.mem_replicate, List.mem_cons,
      List.not_mem_nil, or_false, Occurrence.serve.injEq] at hmem
    rcases hmem with ((⟨-, rfl, -⟩ | ⟨rfl, -⟩ | ⟨rfl, -⟩) | ⟨-, rfl, -⟩) | ⟨-, rfl, -⟩ <;> nofun
  refine ⟨_, rfl, rfl, rfl, rfl, ?_⟩
  refine run_safe twoRevisions recovering (lostAcknowledgement ++ (recovery ++ rest)) _ rfl ?_
  refine (within_others (fun i served h => happly i served (List.mem_append_left _ h)) _).append ?_
  intro c hc
  refine (within_recovery c hc).append fun d _ => ?_
  exact within_others (fun i served h => happly i served (List.mem_append_right _ h)) d

end Plenora.Sdk.Migrations
