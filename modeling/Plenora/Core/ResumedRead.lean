import Plenora.Lib.Kleene
import Plenora.Lib.Keyset
import Plenora.Core.Checkpoint

/-!
# What a resumed read delivers

An `Engine` is what the code relies on a product for: how it compares the values
of a column, where it puts NULL, and its conditions that are not comparisons.
Over it `orderedRows` is the read a plan asks for, its window left out.

A checkpoint is captured only where every ordering value is comparable, but the
rows after it may hold NULL, which no comparison reaches.  The resumed read is
the rest of the original exactly when no such row is met:

    orderedRows e op bag t = some (before ++ c :: after) →
      fromRow … (deliver columns c) = .ok k → k.resume … = .ok (resumed, bound) →
      (Continues … ↔ ∀ r ∈ t, … → comesAfter c r → firstDifferenceNonNull c r)
                                                                  (resume_continues_iff)
-/

namespace Plenora.Core

open Plenora.Lib Plenora.Lib.Keyset

/-! ## The read -/

/-- A row of the source: a value for every column. -/
abbrev TableRow := String → ParameterValue

/-- The behaviour of a product the reads rely on. -/
structure Engine where
  /-- the order of a column's values that are not NULL, equality included -/
  compare : String → ParameterValue → ParameterValue → Ordering
  trans : ∀ field, Std.TransCmp (compare field)
  /-- whether NULL comes last when a column is sorted in this direction -/
  nullsLast : SortDirection → Bool
  like : String → ParameterValue → ParameterValue → Bool → Truth
  spatial : SpatialFunction → ParameterValue → Option ParameterValue → Option ParameterValue →
    Truth

namespace Engine

/-- A comparison with a bound value; unknown as soon as a side is NULL. -/
def comparison (e : Engine) (bag : ParameterBag) (row : TableRow) (field parameter : String)
    (test : Ordering → Bool) : Truth :=
  match bag.get parameter with
  | none => .unknown
  | some value =>
    if (row field).isNull ∨ value.isNull then .unknown
    else .ofBool (test (e.compare field (row field) value))

mutual

/-- A filter on a row. -/
def eval (e : Engine) (bag : ParameterBag) (row : TableRow) : FilterExpression → Truth
  | .and args => Truth.all (evalList e bag row args)
  | .or args => Truth.any (evalList e bag row args)
  | .eq field parameter => e.comparison bag row field parameter (· == .eq)
  | .ne field parameter => e.comparison bag row field parameter (· != .eq)
  | .lt field parameter => e.comparison bag row field parameter (· == .lt)
  | .lte field parameter => e.comparison bag row field parameter (· != .gt)
  | .gt field parameter => e.comparison bag row field parameter (· == .gt)
  | .gte field parameter => e.comparison bag row field parameter (· != .lt)
  | .isNull field => .ofBool (row field).isNull
  | .isNotNull field => .ofBool (!(row field).isNull)
  | .inList field parameters =>
    Truth.any (parameters.map fun parameter => e.comparison bag row field parameter (· == .eq))
  | .between field lowerParameter upperParameter =>
    (e.comparison bag row field lowerParameter (· != .lt)).and
      (e.comparison bag row field upperParameter (· != .gt))
  | .like field parameter caseInsensitive =>
    match bag.get parameter with
    | none => .unknown
    | some pattern => e.like field (row field) pattern caseInsensitive
  | .spatial function field geometryParameter distanceParameter =>
    e.spatial function (row field) (geometryParameter.bind bag.get) (distanceParameter.bind bag.get)

def evalList (e : Engine) (bag : ParameterBag) (row : TableRow) : List FilterExpression → List Truth
  | [] => []
  | arg :: args => e.eval bag row arg :: e.evalList bag row args

end

/-- The order of a column's values in a direction. -/
def directed (e : Engine) (ordering : OrderBy) (a b : ParameterValue) : Ordering :=
  match ordering.direction with
  | .asc => e.compare ordering.field a b
  | .desc => e.compare ordering.field b a

/-- One column of the ordering, NULL placed where the product places it. -/
def columnCompare (e : Engine) (ordering : OrderBy) (a b : TableRow) : Ordering :=
  nullsCompare ParameterValue.isNull (e.nullsLast ordering.direction) (e.directed ordering)
    (a ordering.field) (b ordering.field)

def rowCompare (e : Engine) (orderBy : List OrderBy) : TableRow → TableRow → Ordering :=
  lexCompare (orderBy.map e.columnCompare)

/-- The condition a read selects by; without a filter every row is selected. -/
def selects (e : Engine) (bag : ParameterBag) (filter : Option FilterExpression) (row : TableRow) :
    Bool :=
  match filter with
  | none => true
  | some filter => e.eval bag row filter = .true

end Engine

mutual

/-- Every parameter a filter names. -/
def FilterExpression.parameters : FilterExpression → List String
  | .and args => parametersList args
  | .or args => parametersList args
  | .eq _ p | .ne _ p | .lt _ p | .lte _ p | .gt _ p | .gte _ p => [p]
  | .isNull _ | .isNotNull _ => []
  | .inList _ ps => ps
  | .between _ l u => [l, u]
  | .like _ p _ => [p]
  | .spatial _ _ g d => g.toList ++ d.toList

def parametersList : List FilterExpression → List String
  | [] => []
  | arg :: args => arg.parameters ++ parametersList args

end

/-- A filter runs only with all its parameters bound. -/
def bound (bag : ParameterBag) (filter : Option FilterExpression) : Prop :=
  ∀ f ∈ filter, ∀ p ∈ f.parameters, (bag.get p).isSome

instance (bag : ParameterBag) (filter : Option FilterExpression) :
    Decidable (bound bag filter) :=
  inferInstanceAs (Decidable (∀ f ∈ filter, ∀ p ∈ f.parameters, (bag.get p).isSome))

/-- The rows of a read in their order, before its window cuts them; none when the filter names
a parameter that is not bound. -/
def orderedRows (e : Engine) (operation : ReadOperation) (bag : ParameterBag)
    (table : List TableRow) : Option (List TableRow) :=
  if bound bag operation.filter then
    some (sorted (e.rowCompare operation.orderBy) (table.filter (e.selects bag operation.filter)))
  else none

def limited (limit : Option Nat) (rows : List TableRow) : List TableRow :=
  match limit with
  | none => rows
  | some limit => rows.take limit

/-- The rows a read delivers. -/
def readRows (e : Engine) (operation : ReadOperation) (bag : ParameterBag)
    (table : List TableRow) : Option (List TableRow) :=
  (orderedRows e operation bag table).map fun rows =>
    limited operation.rowLimit (rows.drop (operation.rowOffset.getD 0))

/-- The first ordering column in which `row` differs from `c` is not NULL in `row`. -/
def firstDifferenceNonNull (e : Engine) : List OrderBy → TableRow → TableRow → Prop
  | [], _, _ => True
  | o :: orderBy, c, row =>
    if e.columnCompare o c row = .eq then firstDifferenceNonNull e orderBy c row
    else ¬ (row o.field).isNull

/-- The rows up to `c`, then the resumed read, are the original read. -/
def Continues (e : Engine) (resumed : ReadOperation) (bound : ParameterBag)
    (table before : List TableRow) (c : TableRow) (after : List TableRow) : Prop :=
  ∃ rest, orderedRows e resumed bound table = some rest ∧
    before ++ [c] ++ rest = before ++ c :: after

/-- A table row as delivered under a projection. -/
def deliver (columns : List String) (row : TableRow) : Row :=
  { columns, values := columns.map row, length_eq := by simp }

/-! ## Lemmas -/

theorem tryGet_deliver {columns : List String} {row : TableRow} {name : String}
    {value : ParameterValue} (h : (deliver columns row).tryGet name = .ok (some value)) :
    value = row name := by
  unfold Row.tryGet at h
  simp only [bind_eq_ok, Except.ok.injEq, deliver] at h
  obtain ⟨-, -, h⟩ := h
  obtain ⟨i, hi, hv⟩ := Option.bind_eq_some_iff.1 h
  obtain ⟨hlt, hname, -⟩ := List.findIdx?_eq_some_iff_getElem.1 hi
  rw [List.getElem?_map, List.getElem?_eq_getElem hlt] at hv
  simp only [beq_iff_eq] at hname
  rw [hname] at hv
  simpa using hv.symm

theorem orderingValues_deliver {columns : List String} {row : TableRow} {orderBy : List OrderBy}
    {values : List ParameterValue}
    (h : ReadCheckpoint.orderingValues (deliver columns row) orderBy = .ok values) :
    values = orderBy.map (row ·.field) := by
  induction orderBy generalizing values with
  | nil => simpa [ReadCheckpoint.orderingValues, eq_comm] using h
  | cons ordering orderBy ih =>
    simp only [ReadCheckpoint.orderingValues, bind_eq_ok, okOr_eq_ok, Except.ok.injEq] at h
    obtain ⟨found, hget, value, rfl, rest, hrest, rfl⟩ := h
    rw [tryGet_deliver hget, ih hrest, List.map_cons]

theorem directed_trans (e : Engine) (ordering : OrderBy) : Std.TransCmp (e.directed ordering) := by
  have := e.trans ordering.field
  cases hd : ordering.direction with
  | asc =>
    have hsame : e.directed ordering = e.compare ordering.field := by
      funext a b
      simp only [Engine.directed, hd]
    rwa [hsame]
  | desc =>
    have hflip : e.directed ordering = fun a b => e.compare ordering.field b a := by
      funext a b
      simp only [Engine.directed, hd]
    rw [hflip]
    exact { eq_swap := Std.OrientedCmp.eq_swap
            isLE_trans := fun hab hbc => Std.TransCmp.isLE_trans hbc hab }

theorem columnCompare_trans (e : Engine) (ordering : OrderBy) :
    Std.TransCmp (e.columnCompare ordering) := by
  have := directed_trans e ordering
  have := nullsCompare_trans ParameterValue.isNull (e.nullsLast ordering.direction)
    (e.directed ordering)
  unfold Engine.columnCompare
  exact { eq_swap := Std.OrientedCmp.eq_swap, isLE_trans := Std.TransCmp.isLE_trans }

theorem rowCompare_trans (e : Engine) (orderBy : List OrderBy) :
    Std.TransCmp (e.rowCompare orderBy) := by
  refine lexCompare_trans fun κ hκ => ?_
  obtain ⟨ordering, -, rfl⟩ := List.mem_map.1 hκ
  exact columnCompare_trans e ordering

/-! ### The bound values -/

/-- The checkpoint's values are bound under their names, and nothing bound before is lost: the
names were free. -/
theorem bindValues_spec {values : List ParameterValue} {index : Nat} {bag bound : ParameterBag}
    (h : bindValues index values bag = .ok bound) :
    (∀ name value, bag.get name = some value → bound.get name = some value) ∧
      ∀ i value, values[i]? = some value → bound.get (parameterName (index + i)) = some value := by
  induction values generalizing index bag with
  | nil =>
    simp only [bindValues, Except.ok.injEq] at h
    subst h
    exact ⟨fun _ _ h => h, fun i value hi => by simp at hi⟩
  | cons v vs ih =>
    simp only [bindValues, bind_eq_ok, failIf_eq_ok, exists_const] at h
    obtain ⟨hfree, h⟩ := h
    obtain ⟨hkeep, hvals⟩ := ih h
    have hself : bound.get (parameterName index) = some v :=
      hkeep _ _ (AList.lookup_insert _)
    refine ⟨fun name value hname => ?_, fun i value hi => ?_⟩
    · refine hkeep name value ?_
      have hne : name ≠ parameterName index := by
        rintro rfl
        simp [hname] at hfree
      exact (AList.lookup_insert_ne hne).trans hname
    · cases i with
      | zero =>
        obtain rfl : v = value := by simpa using hi
        exact hself
      | succ i =>
        have := hvals i value (by simpa using hi)
        rwa [Nat.add_right_comm] at this

theorem comparison_extend (e : Engine) {bag bound : ParameterBag} (row : TableRow)
    (field : String) {parameter : String} (test : Ordering → Bool)
    (hkeep : ∀ name value, bag.get name = some value → bound.get name = some value)
    (h : (bag.get parameter).isSome) :
    e.comparison bound row field parameter test = e.comparison bag row field parameter test := by
  obtain ⟨value, hv⟩ := Option.isSome_iff_exists.1 h
  simp only [Engine.comparison, hv, hkeep _ _ hv]

mutual

/-- A filter whose parameters are all bound does not see further bindings. -/
theorem eval_extend (e : Engine) {bag bound : ParameterBag} (row : TableRow)
    (hkeep : ∀ name value, bag.get name = some value → bound.get name = some value) :
    ∀ filter : FilterExpression, (∀ p ∈ filter.parameters, (bag.get p).isSome) →
      e.eval bound row filter = e.eval bag row filter
  | .and args, h => by
    simp only [Engine.eval]
    rw [evalList_extend e row hkeep args (by simpa only [FilterExpression.parameters] using h)]
  | .or args, h => by
    simp only [Engine.eval]
    rw [evalList_extend e row hkeep args (by simpa only [FilterExpression.parameters] using h)]
  | .eq field p, h | .ne field p, h | .lt field p, h | .lte field p, h | .gt field p, h
  | .gte field p, h => by
    simp only [Engine.eval]
    exact comparison_extend e row field _ hkeep (h p (by simp [FilterExpression.parameters]))
  | .isNull _, _ | .isNotNull _, _ => by simp only [Engine.eval]
  | .inList field ps, h => by
    simp only [Engine.eval]
    congr 1
    refine List.map_congr_left fun p hp => ?_
    exact comparison_extend e row field _ hkeep (h p (by simpa [FilterExpression.parameters] using hp))
  | .between field l u, h => by
    simp only [Engine.eval]
    rw [comparison_extend e row field _ hkeep (h l (by simp [FilterExpression.parameters])),
      comparison_extend e row field _ hkeep (h u (by simp [FilterExpression.parameters]))]
  | .like field p _, h => by
    obtain ⟨value, hv⟩ := Option.isSome_iff_exists.1 (h p (by simp [FilterExpression.parameters]))
    simp only [Engine.eval, hv, hkeep _ _ hv]
  | .spatial function field g d, h => by
    have hbind (o : Option String) (ho : ∀ p ∈ o, (bag.get p).isSome) :
        o.bind bound.get = o.bind bag.get := by
      cases o with
      | none => rfl
      | some p =>
        obtain ⟨value, hv⟩ := Option.isSome_iff_exists.1 (ho p rfl)
        simp only [Option.bind_some, hv, hkeep _ _ hv]
    simp only [Engine.eval]
    rw [hbind g fun p hp => h p (by simp [FilterExpression.parameters, Option.mem_def.1 hp]),
      hbind d fun p hp => h p (by simp [FilterExpression.parameters, Option.mem_def.1 hp])]

theorem evalList_extend (e : Engine) {bag bound : ParameterBag} (row : TableRow)
    (hkeep : ∀ name value, bag.get name = some value → bound.get name = some value) :
    ∀ args : List FilterExpression, (∀ p ∈ parametersList args, (bag.get p).isSome) →
      e.evalList bound row args = e.evalList bag row args
  | [], _ => rfl
  | arg :: args, h => by
    simp only [Engine.evalList]
    rw [eval_extend e row hkeep arg fun p hp => h p (by simp [parametersList, hp]),
      evalList_extend e row hkeep args fun p hp => h p (by simp [parametersList, hp])]

end

/-! ### The keyset filter -/

theorem evalList_eq_map (e : Engine) (bag : ParameterBag) (row : TableRow)
    (args : List FilterExpression) : e.evalList bag row args = args.map (e.eval bag row) := by
  induction args with
  | nil => rfl
  | cons arg args ih => simp only [Engine.evalList, ih, List.map_cons]

theorem eval_unwrapSingle_and (e : Engine) (bag : ParameterBag) (row : TableRow)
    (terms : List FilterExpression) :
    e.eval bag row (unwrapSingle .and terms) = .true ↔ ∀ t ∈ terms, e.eval bag row t = .true := by
  unfold unwrapSingle
  split
  next only => simp
  next => simp [Engine.eval, evalList_eq_map, Truth.all_eq_true]

theorem eval_unwrapSingle_or (e : Engine) (bag : ParameterBag) (row : TableRow)
    (terms : List FilterExpression) :
    e.eval bag row (unwrapSingle .or terms) = .true ↔ ∃ t ∈ terms, e.eval bag row t = .true := by
  unfold unwrapSingle
  split
  next only => simp
  next => simp [Engine.eval, evalList_eq_map, Truth.any_eq_true]

/-- An ordering column as the resume filter sees it from the checkpoint row `c`. -/
def keyColumn (e : Engine) (c : TableRow) (ordering : OrderBy) : Column TableRow where
  compare := e.columnCompare ordering
  same row := ¬ (row ordering.field).isNull ∧
    e.directed ordering (c ordering.field) (row ordering.field) = .eq
  after row := ¬ (row ordering.field).isNull ∧
    e.directed ordering (c ordering.field) (row ordering.field) = .lt

/-- The columns see what the order says, the checkpoint row having no NULL in them. -/
theorem keyColumn_sound (e : Engine) {c : TableRow} {orderBy : List OrderBy}
    (hc : ∀ o ∈ orderBy, ¬ (c o.field).isNull) : Sound c (orderBy.map (keyColumn e c)) := by
  intro k hk
  obtain ⟨o, ho, rfl⟩ := List.mem_map.1 hk
  have hnull : (c o.field).isNull = false := by simpa using hc o ho
  refine ⟨fun row => ?_, fun row h => ?_⟩
  · simp only [keyColumn, Engine.columnCompare, nullsCompare, hnull]
    cases (row o.field).isNull with
    | true => cases e.nullsLast o.direction <;> simp
    | false => simp
  · obtain ⟨hrow, hlt⟩ := h
    simp only [Bool.not_eq_true] at hrow
    simp only [keyColumn, Engine.columnCompare, nullsCompare, hnull, hrow, hlt]

section Filter

variable (e : Engine) {c : TableRow} (row : TableRow) {bag : ParameterBag} {orderBy : List OrderBy}

/-- A comparison with the checkpoint's value is a comparison with its row. -/
theorem comparison_eq_true {o : OrderBy} {i : Nat} (test : Ordering → Bool)
    (hbag : bag.get (parameterName i) = some (c o.field)) (hc : ¬ (c o.field).isNull) :
    e.comparison bag row o.field (parameterName i) test = .true ↔
      ¬ (row o.field).isNull ∧ test (e.compare o.field (row o.field) (c o.field)) := by
  simp only [Engine.comparison, hbag]
  by_cases hrow : (row o.field).isNull <;> simp [hrow, hc]

theorem eval_equality {o : OrderBy} {i : Nat}
    (hbag : bag.get (parameterName i) = some (c o.field)) (hc : ¬ (c o.field).isNull) :
    e.eval bag row (.eq o.field (parameterName i)) = .true ↔ (keyColumn e c o).same row := by
  have := e.trans o.field
  have hswap := swap_eq (e.compare o.field) (row o.field) (c o.field)
  simp only [keyColumn, Engine.directed]
  rw [Engine.eval, comparison_eq_true e row _ hbag hc, hswap]
  cases o.direction with
  | asc => cases e.compare o.field (c o.field) (row o.field) <;> simp
  | desc => cases e.compare o.field (c o.field) (row o.field) <;> simp

theorem eval_pastValue {o : OrderBy} {i : Nat}
    (hbag : bag.get (parameterName i) = some (c o.field)) (hc : ¬ (c o.field).isNull) :
    e.eval bag row (pastValue i o) = .true ↔ (keyColumn e c o).after row := by
  have := e.trans o.field
  have hswap := swap_eq (e.compare o.field) (row o.field) (c o.field)
  simp only [keyColumn, Engine.directed, pastValue]
  cases o.direction with
  | asc =>
    rw [Engine.eval, comparison_eq_true e row _ hbag hc, hswap]
    cases e.compare o.field (c o.field) (row o.field) <;> simp
  | desc =>
    rw [Engine.eval, comparison_eq_true e row _ hbag hc]
    simp

/-- **The resume filter.** On every row it holds exactly where the keyset condition does. -/
theorem eval_lexicographicFilter
    (hbag : ∀ (i : Nat) (o : OrderBy), orderBy[i]? = some o →
      bag.get (parameterName i) = some (c o.field))
    (hc : ∀ o ∈ orderBy, ¬ (c o.field).isNull) :
    e.eval bag row (lexicographicFilter orderBy) = .true ↔
      follows (orderBy.map (keyColumn e c)) row := by
  have hmem {i : Nat} {o : OrderBy} (h : orderBy[i]? = some o) := hc o (List.mem_of_getElem? h)
  have hcol (i : Nat) (k : Column TableRow) : (orderBy.map (keyColumn e c))[i]? = some k ↔
      ∃ o, orderBy[i]? = some o ∧ keyColumn e c o = k := by
    rw [List.getElem?_map, Option.map_eq_some_iff]
  have hidx {α β : Type} (f : Nat → α → β) (l : List α) (b : β) :
      b ∈ l.mapIdx f ↔ ∃ (i : Nat) (a : α), l[i]? = some a ∧ f i a = b := by
    simp only [List.mem_iff_getElem?, List.getElem?_mapIdx, Option.map_eq_some_iff]
  -- the alternative at column `i`: equality before it, past the checkpoint in it
  have halt (i : Nat) (o : OrderBy) (hi : orderBy[i]? = some o) :
      e.eval bag row (unwrapSingle .and (keysetTerms orderBy i o)) = .true ↔
        (keyColumn e c o).after row ∧
          ∀ j < i, ∀ k, (orderBy.map (keyColumn e c))[j]? = some k → k.same row := by
    rw [eval_unwrapSingle_and, keysetTerms]
    simp only [List.forall_mem_append, List.forall_mem_singleton]
    rw [eval_pastValue e row (hbag i o hi) (hmem hi), and_comm]
    refine and_congr_right fun _ => ⟨fun h j hj k hk => ?_, fun h t ht => ?_⟩
    · obtain ⟨o', ho', rfl⟩ := (hcol j k).1 hk
      refine (eval_equality e row (hbag j o' ho') (hmem ho')).1 (h _ ?_)
      exact (hidx _ _ _).2 ⟨j, o', by rw [List.getElem?_take_of_lt hj, ho'], rfl⟩
    · obtain ⟨j, o', hj, rfl⟩ := (hidx _ _ _).1 ht
      have hji : j < i := by
        by_contra hle
        rw [List.getElem?_take, if_neg hle] at hj
        cases hj
      rw [List.getElem?_take_of_lt hji] at hj
      exact (eval_equality e row (hbag j o' hj) (hmem hj)).2
        (h j hji _ ((hcol j _).2 ⟨o', hj, rfl⟩))
  rw [lexicographicFilter, eval_unwrapSingle_or, follows_iff_exists]
  constructor
  · rintro ⟨t, ht, htrue⟩
    obtain ⟨i, o, hi, rfl⟩ := (hidx _ _ _).1 ht
    obtain ⟨hafter, hbefore⟩ := (halt i o hi).1 htrue
    exact ⟨i, keyColumn e c o, (hcol i _).2 ⟨o, hi, rfl⟩, hafter, hbefore⟩
  · rintro ⟨i, k, hi, hafter, hbefore⟩
    obtain ⟨o, ho, rfl⟩ := (hcol i k).1 hi
    exact ⟨_, (hidx _ _ _).2 ⟨i, o, ho, rfl⟩, (halt i o ho).2 ⟨hafter, hbefore⟩⟩

end Filter

/-! ### From the checkpoint to the resumed read -/

theorem decided_iff (e : Engine) {c row : TableRow} {orderBy : List OrderBy}
    (hc : ∀ o ∈ orderBy, ¬ (c o.field).isNull) (hlt : e.rowCompare orderBy c row = .lt) :
    decided c (orderBy.map (keyColumn e c)) row ↔ firstDifferenceNonNull e orderBy c row := by
  induction orderBy with
  | nil => simp [decided, firstDifferenceNonNull]
  | cons o orderBy ih =>
    have hnull : (c o.field).isNull = false := by simpa using hc o List.mem_cons_self
    unfold Engine.rowCompare at hlt
    rw [List.map_cons, lexCompare_cons] at hlt
    simp only [List.map_cons, decided, firstDifferenceNonNull, keyColumn]
    split
    next heq =>
      rw [heq] at hlt
      exact ih (fun o' ho' => hc o' (List.mem_cons_of_mem _ ho')) hlt
    next hne =>
      rw [and_iff_left_iff_imp]
      intro hrow
      simp only [Bool.not_eq_true] at hrow
      have hcol : e.columnCompare o c row = e.directed o (c o.field) (row o.field) := by
        simp only [Engine.columnCompare, nullsCompare, hnull, hrow]
      rw [← hcol]
      cases h : e.columnCompare o c row with
      | lt => rfl
      | eq => exact absurd h hne
      | gt => simp [h] at hlt

/-- What a checkpoint captured and applied successfully guarantees. -/
theorem resume_spec {digest : Digest} {provider : ProviderKind} {operation page resumed : ReadOperation}
    {bag bound : ParameterBag} {columns : List String} {c : TableRow} {checkpoint : ReadCheckpoint}
    (hcap : ReadCheckpoint.fromRow digest provider operation bag (deliver columns c) =
      .ok checkpoint)
    (hres : checkpoint.resume digest provider page bag = .ok (resumed, bound)) :
    page.rowOffset = none ∧
      resumed = { page with
        filter := some (resumedFilter page.filter (lexicographicFilter operation.orderBy)) } ∧
      (∀ o ∈ operation.orderBy, ¬ (c o.field).isNull) ∧
      (∀ name value, bag.get name = some value → bound.get name = some value) ∧
      ∀ i o, operation.orderBy[i]? = some o → bound.get (parameterName i) = some (c o.field) := by
  unfold ReadCheckpoint.fromRow ReadCheckpoint.new at hcap
  simp only [bind_eq_ok, Except.ok.injEq] at hcap
  obtain ⟨values, hvalues, fingerprint, -, _, hvalid, rfl⟩ := hcap
  obtain rfl := orderingValues_deliver hvalues
  unfold ReadCheckpoint.validate at hvalid
  simp only [bind_eq_ok, failIf_eq_ok, exists_const] at hvalid
  obtain ⟨-, -, -, -, -, horder⟩ := hvalid
  unfold ReadCheckpoint.resume at hres
  simp only [bind_eq_ok, failIf_eq_ok, exists_const, Except.ok.injEq, Prod.mk.injEq] at hres
  obtain ⟨_, -, _, -, -, hoffset, bound', hbind, rfl, rfl⟩ := hres
  obtain ⟨hkeep, hvals⟩ := bindValues_spec hbind
  refine ⟨by simpa using hoffset, rfl, fun o ho hnull => ?_, hkeep, fun i o hi => ?_⟩
  · simp only [not_not, List.all_map, List.all_eq_true, Function.comp_apply] at horder
    have hportable := horder o ho
    generalize c o.field = value at hportable hnull
    cases value <;> contradiction
  · have := hvals i (c o.field) (by rw [List.getElem?_map, hi]; rfl)
    rwa [Nat.zero_add] at this

/-- A resumed read has no offset: it delivers the first `row_limit` of its rows. -/
theorem readRows_resumed {e : Engine} {digest : Digest} {provider : ProviderKind}
    {operation page resumed : ReadOperation} {bag bound : ParameterBag} {columns : List String}
    {c : TableRow} {checkpoint : ReadCheckpoint} (table : List TableRow)
    (hcap : ReadCheckpoint.fromRow digest provider operation bag (deliver columns c) =
      .ok checkpoint)
    (hres : checkpoint.resume digest provider page bag = .ok (resumed, bound)) :
    readRows e resumed bound table = (orderedRows e resumed bound table).map
      (limited page.rowLimit) := by
  obtain ⟨hoffset, rfl, -⟩ := resume_spec hcap hres
  simp only [readRows, hoffset, Option.getD_none, List.drop_zero]

theorem parameters_unwrapSingle {wrap : List FilterExpression → FilterExpression}
    (hwrap : ∀ terms, (wrap terms).parameters = parametersList terms) {p : String}
    {terms : List FilterExpression} (h : p ∈ (unwrapSingle wrap terms).parameters) :
    ∃ t ∈ terms, p ∈ t.parameters := by
  have hlist (terms : List FilterExpression) (h : p ∈ parametersList terms) :
      ∃ t ∈ terms, p ∈ t.parameters := by
    induction terms with
    | nil => simp [parametersList] at h
    | cons t ts ih =>
      rcases List.mem_append.1 h with h | h
      · exact ⟨t, List.mem_cons_self, h⟩
      · obtain ⟨t', ht', hp⟩ := ih h
        exact ⟨t', List.mem_cons_of_mem _ ht', hp⟩
  unfold unwrapSingle at h
  split at h
  next only => exact ⟨only, List.mem_cons_self, h⟩
  next => exact hlist terms (hwrap terms ▸ h)

/-- The resume filter names the checkpoint's own parameters only. -/
theorem parameters_lexicographicFilter {orderBy : List OrderBy} {p : String}
    (h : p ∈ (lexicographicFilter orderBy).parameters) :
    ∃ (i : Nat) (o : OrderBy), orderBy[i]? = some o ∧ p = parameterName i := by
  obtain ⟨t, ht, hp⟩ := parameters_unwrapSingle (fun _ => by rw [FilterExpression.parameters]) h
  simp only [List.mem_iff_getElem?, List.getElem?_mapIdx, Option.map_eq_some_iff] at ht
  obtain ⟨i, o, hi, rfl⟩ := ht
  obtain ⟨t, ht, hp⟩ := parameters_unwrapSingle (fun _ => by rw [FilterExpression.parameters]) hp
  rcases List.mem_append.1 ht with ht | ht
  · simp only [List.mem_iff_getElem?, List.getElem?_mapIdx, Option.map_eq_some_iff] at ht
    obtain ⟨j, o', hj, rfl⟩ := ht
    obtain rfl : p = parameterName j := by simpa [FilterExpression.parameters] using hp
    rw [List.getElem?_take] at hj
    split at hj
    next => exact ⟨j, o', hj, rfl⟩
    next => cases hj
  · obtain rfl := List.mem_singleton.1 ht
    refine ⟨i, o, hi, ?_⟩
    unfold pastValue at hp
    split at hp <;> simpa [FilterExpression.parameters] using hp

section Resumed

variable (e : Engine) {operation : ReadOperation} {bag bound : ParameterBag} {c : TableRow}
  (hkeep : ∀ name value, bag.get name = some value → bound.get name = some value)
  (hbag : ∀ (i : Nat) (o : OrderBy), operation.orderBy[i]? = some o →
    bound.get (parameterName i) = some (c o.field))

include hkeep in
theorem selects_resumed (hbound : Core.bound bag operation.filter) (row : TableRow) :
    e.selects bound (some (resumedFilter operation.filter
        (lexicographicFilter operation.orderBy))) row =
      (decide (e.eval bound row (lexicographicFilter operation.orderBy) = .true) &&
        e.selects bag operation.filter row) := by
  cases hf : operation.filter with
  | none =>
    simp only [Engine.selects, resumedFilter, Bool.and_true]
    rfl
  | some original =>
    have hext := eval_extend e row hkeep original (hbound original hf)
    simp [Engine.selects, resumedFilter, Engine.eval, Engine.evalList, Truth.all, hext,
      Bool.and_comm]

include hkeep hbag in
theorem bound_resumed (hbound : Core.bound bag operation.filter) :
    Core.bound bound
      (some (resumedFilter operation.filter (lexicographicFilter operation.orderBy))) := by
  have hkeyset : ∀ p ∈ (lexicographicFilter operation.orderBy).parameters,
      (bound.get p).isSome := by
    intro p hp
    obtain ⟨i, o, hi, rfl⟩ := parameters_lexicographicFilter hp
    rw [hbag i o hi]
    rfl
  intro f hf p hp
  obtain rfl := Option.some.inj hf
  cases hfilter : operation.filter with
  | none =>
    rw [hfilter] at hp
    exact hkeyset p hp
  | some original =>
    rw [hfilter] at hp
    simp only [resumedFilter, FilterExpression.parameters, parametersList, List.append_nil,
      List.mem_append] at hp
    rcases hp with hp | hp
    · obtain ⟨value, hv⟩ := Option.isSome_iff_exists.1 (hbound original hfilter p hp)
      rw [hkeep p value hv]
      rfl
    · exact hkeyset p hp

include hkeep hbag in
/-- The resumed read keeps, of the original rows, those the resume filter reaches. -/
theorem orderedRows_resumed {limit offset : Option Nat} {table rows : List TableRow}
    (hunique : table.Pairwise fun a b => e.rowCompare operation.orderBy a b ≠ .eq)
    (hrows : orderedRows e operation bag table = some rows) :
    orderedRows e { operation with
        rowLimit := limit
        rowOffset := offset
        filter := some (resumedFilter operation.filter (lexicographicFilter operation.orderBy)) }
        bound table =
      some (rows.filter fun row =>
        e.eval bound row (lexicographicFilter operation.orderBy) = .true) := by
  have := rowCompare_trans e operation.orderBy
  unfold orderedRows at hrows ⊢
  split at hrows
  next hbound =>
    obtain rfl := Option.some.inj hrows
    rw [if_pos (bound_resumed hkeep hbag hbound), funext (selects_resumed e hkeep hbound),
      ← List.filter_filter, sorted_filter _ _ (hunique.filter _)]
  next => cases hrows

end Resumed

/-! ## Top theorem -/

/-- **Resuming a keyset read.** The rows up to the checkpoint row and the resumed read are the
original read, in order and each once, exactly when every selected row the ordering puts after
the checkpoint row is not NULL in the first ordering column where the two differ.  `row_limit`
is outside the scope of a checkpoint and only cuts each page (`readRows_resumed`). -/
theorem resume_continues_iff (e : Engine) (digest : Digest) (provider : ProviderKind)
    (operation resumed : ReadOperation) (limit offset : Option Nat) (bag bound : ParameterBag)
    (table before : List TableRow) (c : TableRow) (after : List TableRow) (columns : List String)
    (checkpoint : ReadCheckpoint)
    (hunique : table.Pairwise fun a b => e.rowCompare operation.orderBy a b ≠ .eq)
    (hrows : orderedRows e operation bag table = some (before ++ c :: after))
    (hcap : ReadCheckpoint.fromRow digest provider operation bag (deliver columns c) =
      .ok checkpoint)
    (hres : checkpoint.resume digest provider
      { operation with rowLimit := limit, rowOffset := offset } bag = .ok (resumed, bound)) :
    Continues e resumed bound table before c after ↔
      ∀ row ∈ table, e.selects bag operation.filter row →
        e.rowCompare operation.orderBy c row = .lt →
        firstDifferenceNonNull e operation.orderBy c row := by
  have := rowCompare_trans e operation.orderBy
  obtain ⟨-, rfl, hc, hkeep, hbag⟩ := resume_spec hcap hres
  have hkeyset (row : TableRow) := eval_lexicographicFilter e row hbag hc
  have hcompare : lexCompare ((operation.orderBy.map (keyColumn e c)).map (·.compare)) =
      e.rowCompare operation.orderBy := by
    rw [List.map_map]
    rfl
  -- the ordered rows are the selected ones, and strictly ordered
  have hsorted : before ++ c :: after =
      sorted (e.rowCompare operation.orderBy) (table.filter (e.selects bag operation.filter)) := by
    unfold orderedRows at hrows
    split at hrows
    next => exact (Option.some.inj hrows).symm
    next => cases hrows
  have hstrict : (before ++ c :: after).Pairwise fun a b =>
      e.rowCompare operation.orderBy a b = .lt := by
    rw [hsorted]
    exact sorted_strict _ (hunique.filter _)
  have hmem (row : TableRow) : row ∈ before ++ c :: after ↔
      row ∈ table ∧ e.selects bag operation.filter row = true := by
    rw [hsorted, (sorted_perm _ _).mem_iff, List.mem_filter]
  have hafter := mem_after_iff hstrict
  have hlt (row : TableRow) (h : e.eval bound row (lexicographicFilter operation.orderBy) = .true) :
      e.rowCompare operation.orderBy c row = .lt := by
    rw [← hcompare]
    exact follows_lt (keyColumn_sound e hc) ((hkeyset row).1 h)
  unfold Continues
  rw [orderedRows_resumed e hkeep hbag hunique hrows]
  simp only [Option.some.injEq, exists_eq_left']
  rw [append_filter_iff hstrict fun row _ h => hlt row (by simpa using h)]
  constructor
  · intro h row hrow hsel hrowlt
    have := h row ((hafter row).2 ⟨(hmem row).2 ⟨hrow, hsel⟩, hrowlt⟩)
    rw [decide_eq_true_eq, hkeyset,
      follows_iff_decided (keyColumn_sound e hc) (by rw [hcompare]; exact hrowlt)] at this
    exact (decided_iff e hc hrowlt).1 this
  · intro h row hrow
    obtain ⟨hin, hrowlt⟩ := (hafter row).1 hrow
    obtain ⟨htable, hsel⟩ := (hmem row).1 hin
    rw [decide_eq_true_eq, hkeyset,
      follows_iff_decided (keyColumn_sound e hc) (by rw [hcompare]; exact hrowlt)]
    exact (decided_iff e hc hrowlt).2 (h row htable hsel hrowlt)

/-! ### A read of one nullable column -/

/-- PostgreSQL on integer columns: NULL sorts as the largest value. -/
def postgresIntegers : Engine where
  compare _ a b := Ord.compare (integer a) (integer b)
  trans _ := { eq_swap := Std.OrientedCmp.eq_swap, isLE_trans := Std.TransCmp.isLE_trans }
  nullsLast direction := direction = .asc
  like _ _ _ _ := .unknown
  spatial _ _ _ _ := .unknown
where
  integer : ParameterValue → Int
    | .i64 value => value.toInt
    | _ => 0

/-- A digest of the right shape. -/
def zeroDigest : Digest where
  toVec _ _ _ _ _ _ _ := some []
  sha256 _ := List.replicate 32 0

/-- `SELECT id FROM events ORDER BY id`. -/
def eventsById : ReadOperation :=
  { source := { catalog := none, schema := none, object := "events" }
    projection := ["id"], orderBy := [{ field := "id", direction := .asc }]
    rowLimit := none, rowOffset := none, filter := none, declaredCrs := [] }

/-- The same read resumed: `WHERE id > :__plenora_resume_0`. -/
def eventsResumed : ReadOperation :=
  { eventsById with filter := some (.gt "id" "__plenora_resume_0") }

def eventRow (id : ParameterValue) : TableRow := fun _ => id

def eventCheckpoint (id : Int64) : ReadCheckpoint :=
  { schemaVersion := 2, provider := .postgres, source := eventsById.source
    orderBy := eventsById.orderBy
    scopeFingerprint := "sha256:0000000000000000000000000000000000000000000000000000000000000000"
    values := [.i64 id] }

def eventBound (id : Int64) : ParameterBag := AList.insert "__plenora_resume_0" (.i64 id) ∅

/-- Two rows without NULL: the read resumes. -/
theorem resume_continues_integers :
    Continues postgresIntegers eventsResumed (eventBound 1)
        [eventRow (.i64 2), eventRow (.i64 1)] [] (eventRow (.i64 1)) [eventRow (.i64 2)] ↔
      ∀ row ∈ [eventRow (.i64 2), eventRow (.i64 1)],
        postgresIntegers.selects ∅ eventsById.filter row →
        postgresIntegers.rowCompare eventsById.orderBy (eventRow (.i64 1)) row = .lt →
        firstDifferenceNonNull postgresIntegers eventsById.orderBy (eventRow (.i64 1)) row :=
  resume_continues_iff postgresIntegers zeroDigest .postgres eventsById eventsResumed none none ∅
    (eventBound 1) _ [] _ _ ["id"] (eventCheckpoint 1)
    (List.pairwise_pair.2 (by decide)) rfl rfl rfl

/-- **A row is lost.** `id` is 1 and NULL, PostgreSQL delivers NULL last, and the read resumed
after 1 delivers nothing. -/
theorem resume_loses_null :
    [eventRow (.i64 1), eventRow (.null "int8")].Pairwise
        (fun a b => postgresIntegers.rowCompare eventsById.orderBy a b ≠ .eq) ∧
      orderedRows postgresIntegers eventsById ∅ [eventRow (.i64 1), eventRow (.null "int8")] =
        some [eventRow (.i64 1), eventRow (.null "int8")] ∧
      ReadCheckpoint.fromRow zeroDigest .postgres eventsById ∅
        (deliver ["id"] (eventRow (.i64 1))) = .ok (eventCheckpoint 1) ∧
      (eventCheckpoint 1).resume zeroDigest .postgres eventsById ∅ =
        .ok (eventsResumed, eventBound 1) ∧
      orderedRows postgresIntegers eventsResumed (eventBound 1)
        [eventRow (.i64 1), eventRow (.null "int8")] = some [] ∧
      ¬ Continues postgresIntegers eventsResumed (eventBound 1)
        [eventRow (.i64 1), eventRow (.null "int8")] [] (eventRow (.i64 1))
        [eventRow (.null "int8")] := by
  have hempty : orderedRows postgresIntegers eventsResumed (eventBound 1)
      [eventRow (.i64 1), eventRow (.null "int8")] = some [] := rfl
  refine ⟨List.pairwise_pair.2 (by decide), rfl, rfl, rfl, hempty, ?_⟩
  rintro ⟨rest, hrest, hrows⟩
  obtain rfl := Option.some.inj (hempty.symm.trans hrest)
  simp at hrows

end Plenora.Core
