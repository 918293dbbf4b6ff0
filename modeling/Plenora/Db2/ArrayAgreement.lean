import Plenora.Db2.ArrayBinding

/-!
# The parameter array and the single rows

What a placeholder admits is of one kind, so the columns of an array hold the admitted values as
a row binds them.

    (∃ columns, executeParameterArray dates timestamps rows described catalog = .ok columns) ↔
      (∀ column, ¬ Mixed (columnOf rows column)) ∧
        ∀ row ∈ rows, ∃ bounds, bindDescribed dates timestamps row described catalog = .ok bounds
                                                             (executeParameterArray_agrees)
-/

namespace Plenora.Db2.ParameterArray

open Plenora.Lib Plenora.Lib.Decimal Plenora.Core Plenora.Core.CastTable
open Plenora.Core.OperandAdmission Plenora.Core.ParameterFidelity Plenora.Db2.Parameter

/-! ## Lists of steps -/

section Steps

variable {ε α β : Type}

theorem mapM_eq_ok_iff {f : α → Except ε β} {as : List α} {bs : List β} :
    as.mapM f = .ok bs ↔
      bs.length = as.length ∧ ∀ (i : Nat) a, as[i]? = some a → ∃ b, bs[i]? = some b ∧ f a = .ok b := by
  rw [mapM_eq_ok]
  constructor
  · intro h
    refine ⟨h.length_eq.symm, ?_⟩
    induction h with
    | nil =>
      intro i a ha
      cases ha
    | cons hb _ ih =>
      intro i a ha
      cases i with
      | zero =>
        cases ha
        exact ⟨_, rfl, hb⟩
      | succ i => exact ih i a ha
  · rintro ⟨hlen, h⟩
    induction as generalizing bs with
    | nil =>
      rw [List.length_nil, List.length_eq_zero_iff] at hlen
      rw [hlen]
      exact .nil
    | cons a as ih =>
      cases bs with
      | nil => cases hlen
      | cons b bs =>
        obtain ⟨b', hb', hb⟩ := h 0 a rfl
        cases hb'
        exact .cons hb (ih (Nat.succ.inj hlen) fun i a' ha' => h (i + 1) a' ha')

theorem exists_mapM_iff {f : α → Except ε β} {as : List α} :
    (∃ bs, as.mapM f = .ok bs) ↔ ∀ a ∈ as, ∃ b, f a = .ok b := by
  induction as with
  | nil => exact iff_of_true ⟨[], rfl⟩ fun a ha => (by cases ha)
  | cons a as ih =>
    rw [List.forall_mem_cons, ← ih]
    constructor
    · rintro ⟨bs, h⟩
      rw [List.mapM_cons] at h
      obtain ⟨b, hb, h⟩ := bind_eq_ok.1 h
      obtain ⟨more, hmore, -⟩ := bind_eq_ok.1 h
      exact ⟨⟨b, hb⟩, more, hmore⟩
    · rintro ⟨⟨b, hb⟩, more, hmore⟩
      refine ⟨b :: more, ?_⟩
      rw [List.mapM_cons, hb, ok_bind, hmore]
      rfl

theorem exists_list {n : Nat} {p : Nat → β → Prop} (h : ∀ c, c < n → ∃ b, p c b) :
    ∃ l : List β, l.length = n ∧ ∀ c, c < n → ∃ b, l[c]? = some b ∧ p c b := by
  have hcell : ∀ c : Fin n, ∃ b, p c b := fun c => h c c.2
  choose f hf using hcell
  refine ⟨List.ofFn f, List.length_ofFn, fun c hc => ⟨f ⟨c, hc⟩, ?_, hf ⟨c, hc⟩⟩⟩
  rw [List.getElem?_ofFn, dif_pos hc]

end Steps

/-! ## Columns -/

def isNull : ParameterValue → Bool
  | .null _ => true
  | _ => false

/-- Doubles or bytes with values of another kind. -/
def Mixed (values : List ParameterValue) : Prop :=
  (∃ v ∈ values, isDouble v) ∧ (∃ v ∈ values, ¬ isDouble v ∧ ¬ isNull v) ∨
    (∃ v ∈ values, isBytes v) ∧ ∃ v ∈ values, ¬ isBytes v ∧ ¬ isNull v

section Columns

variable {dates : String → Bool} {timestamps : String → Option Moment}

theorem arrayDouble_ok_iff {v : ParameterValue} :
    (∃ cell, arrayDouble v = .ok cell) ↔ isDouble v ∨ isNull v := by
  cases v <;> simp [arrayDouble, isDouble, isNull]

theorem arrayBinary_ok_iff {v : ParameterValue} :
    (∃ cell, arrayBinary v = .ok cell) ↔ isBytes v ∨ isNull v := by
  cases v <;> simp [arrayBinary, isBytes, isNull]

theorem arrayText_ok {v : ParameterValue} (hvalid : validateOne dates timestamps v = .ok ())
    (hd : ¬ isDouble v) (hb : ¬ isBytes v) : ∃ cell, arrayText v = .ok cell := by
  cases v with
  | f64 bits => exact absurd rfl hd
  | bytes bytes => exact absurd rfl hb
  | timestampTz text => cases hvalid
  | json document => cases hvalid
  | wkb bytes srid dimensions semantics => cases hvalid
  | _ => exact ⟨_, rfl⟩

theorem exists_map_ok {ε α β : Type} {x : Except ε α} {f : α → β} :
    (∃ b, x.map f = .ok b) ↔ ∃ a, x = .ok a := by
  cases x <;> simp [Except.map]

/-- A column of checked values has buffers exactly when it is not mixed. -/
theorem encodeColumn_ok_iff {values : List ParameterValue}
    (hvalid : ∀ v ∈ values, validateOne dates timestamps v = .ok ()) :
    (∃ column, encodeColumn values = .ok column) ↔ ¬ Mixed values := by
  unfold encodeColumn Mixed
  by_cases hd : ∃ v ∈ values, isDouble v
  · rw [if_pos (List.any_eq_true.2 hd), exists_map_ok, exists_mapM_iff]
    simp only [arrayDouble_ok_iff]
    constructor
    · rintro h (⟨-, v, hv, hnot⟩ | ⟨⟨v, hv, hbytes⟩, -⟩)
      · exact (h v hv).elim hnot.1 hnot.2
      · cases v with
        | bytes bytes => exact (h _ hv).elim (fun h => by cases h) fun h => by cases h
        | _ => cases hbytes
    · intro h v hv
      by_contra hnot
      rw [not_or] at hnot
      exact h (.inl ⟨hd, v, hv, hnot⟩)
  · rw [if_neg fun h => hd (List.any_eq_true.1 h)]
    by_cases hb : ∃ v ∈ values, isBytes v
    · rw [if_pos (List.any_eq_true.2 hb), exists_map_ok, exists_mapM_iff]
      simp only [arrayBinary_ok_iff]
      constructor
      · rintro h (⟨hdouble, -⟩ | ⟨-, v, hv, hnot⟩)
        · exact hd hdouble
        · exact (h v hv).elim hnot.1 hnot.2
      · intro h v hv
        by_contra hnot
        rw [not_or] at hnot
        exact h (.inr ⟨hb, v, hv, hnot⟩)
    · rw [if_neg fun h => hb (List.any_eq_true.1 h), exists_map_ok, exists_mapM_iff]
      refine iff_of_true (fun v hv => ?_) fun h => h.elim (fun h => hd h.1) fun h => hb h.1
      exact arrayText_ok (hvalid v hv) (fun h => hd ⟨v, hv, h⟩) fun h => hb ⟨v, hv, h⟩

/-- The cells of a column, where each value is written as what it denotes. -/
theorem mapM_cells {α : Type} {write : ParameterValue → Result (Option α)} {read : α → Denotation}
    {values : List ParameterValue}
    (h : ∀ v ∈ values, ∃ cell, write v = .ok cell ∧ (cell.map read).getD .null = valueOf v) :
    ∃ cells : List (Option α), values.mapM write = .ok cells ∧
      ∀ (row : Nat) v, values[row]? = some v →
        (cells[row]?.map fun cell => (cell.map read).getD .null) = some (valueOf v) := by
  obtain ⟨cells, hcells⟩ := exists_mapM_iff.2 fun v hv =>
    (h v hv).imp fun cell hcell => hcell.1
  refine ⟨cells, hcells, fun row v hv => ?_⟩
  obtain ⟨cell, hcell, hwrite⟩ := (mapM_eq_ok_iff.1 hcells).2 row v hv
  obtain ⟨cell', hwrite', hread⟩ := h v (List.mem_of_getElem? hv)
  rw [hwrite] at hwrite'
  cases hwrite'
  rw [hcell, Option.map_some, hread]

theorem arrayText_denotes {operand : OperandType} {v : ParameterValue} (hfit : Fits operand v)
    (hd : ¬ isDouble v) (hb : ¬ isBytes v) :
    ∃ cell, arrayText v = .ok cell ∧
      (cell.map (textDenotes operand)).getD .null = valueOf v := by
  cases v with
  | null typeName => exact ⟨_, rfl, rfl⟩
  | bool flag => exact ⟨_, rfl, textDenotes_bool hfit⟩
  | i32 number => exact ⟨_, rfl, textDenotes_int (.inl ⟨_, rfl⟩) hfit⟩
  | i64 number => exact ⟨_, rfl, textDenotes_int (.inr ⟨_, rfl⟩) hfit⟩
  | string text => exact ⟨_, rfl, textDenotes_string hfit⟩
  | date text => exact ⟨_, rfl, textDenotes_date hfit⟩
  | timestamp text => exact ⟨_, rfl, textDenotes_timestamp hfit⟩
  | decimal text => exact ⟨_, rfl, textDenotes_decimal hfit⟩
  | f64 bits => exact absurd rfl hd
  | bytes bytes => exact absurd rfl hb
  | _ => cases operand <;> cases hfit

theorem arrayDouble_denotes {operand : OperandType} {v : ParameterValue} (hfit : Fits operand v)
    (h : ∃ mantissa, operand = .float mantissa) :
    ∃ cell, arrayDouble v = .ok cell ∧ (cell.map doubleOf).getD .null = valueOf v := by
  obtain ⟨mantissa, rfl⟩ := h
  cases v with
  | null typeName => exact ⟨_, rfl, rfl⟩
  | f64 bits => exact ⟨_, rfl, rfl⟩
  | _ => cases hfit

theorem arrayBinary_denotes {operand : OperandType} {v : ParameterValue} (hfit : Fits operand v)
    (h : isBinaryOperand operand) :
    ∃ cell, arrayBinary v = .ok cell ∧ (cell.map Denotation.bytes).getD .null = valueOf v := by
  cases operand with
  | binary length padded =>
    cases v with
    | null typeName => exact ⟨_, rfl, rfl⟩
    | bytes bytes => exact ⟨_, rfl, rfl⟩
    | _ => cases hfit
  | _ => cases h

theorem isFloat_of_double {operand : OperandType} {v : ParameterValue} (hfit : Fits operand v)
    (h : isDouble v) : ∃ mantissa, operand = .float mantissa := by
  cases v with
  | f64 bits =>
    cases operand with
    | float mantissa => exact ⟨mantissa, rfl⟩
    | _ => cases hfit
  | _ => cases h

theorem isBinary_of_bytes {operand : OperandType} {v : ParameterValue} (hfit : Fits operand v)
    (h : isBytes v) : isBinaryOperand operand := by
  cases v with
  | bytes bytes =>
    cases operand with
    | binary length padded => rfl
    | _ => cases hfit
  | _ => cases h

/-- **The column of values of one kind holds what they denote**, in a binary buffer as soon as
one is bytes. -/
theorem encodeColumn_denotes {operand : OperandType} {values : List ParameterValue}
    (hfit : ∀ v ∈ values, Fits operand v) :
    ∃ column, encodeColumn values = .ok column ∧
      (column.isBinary ↔ ∃ v ∈ values, isBytes v) ∧
      ∀ (row : Nat) v, values[row]? = some v → cellDenotes operand row column = some (valueOf v) := by
  unfold encodeColumn
  by_cases hd : ∃ v ∈ values, isDouble v
  · obtain ⟨w, hw, hdouble⟩ := hd
    have hfloat := isFloat_of_double (hfit w hw) hdouble
    obtain ⟨cells, hcells, hread⟩ := mapM_cells fun v hv => arrayDouble_denotes (hfit v hv) hfloat
    refine ⟨.double cells, ?_, ?_, hread⟩
    · rw [if_pos (List.any_eq_true.2 ⟨w, hw, hdouble⟩), hcells]
      rfl
    · refine iff_of_false (fun h => by cases h) ?_
      rintro ⟨v, hv, hbytes⟩
      have hbinary := isBinary_of_bytes (hfit v hv) hbytes
      obtain ⟨mantissa, rfl⟩ := hfloat
      cases hbinary
  · rw [if_neg fun h => hd (List.any_eq_true.1 h)]
    by_cases hb : ∃ v ∈ values, isBytes v
    · obtain ⟨w, hw, hbytes⟩ := hb
      have hbinary := isBinary_of_bytes (hfit w hw) hbytes
      obtain ⟨cells, hcells, hread⟩ :=
        mapM_cells fun v hv => arrayBinary_denotes (hfit v hv) hbinary
      refine ⟨.binary cells, ?_, iff_of_true rfl ⟨w, hw, hbytes⟩, hread⟩
      rw [if_pos (List.any_eq_true.2 ⟨w, hw, hbytes⟩), hcells]
      rfl
    · obtain ⟨cells, hcells, hread⟩ := mapM_cells fun v hv =>
        arrayText_denotes (hfit v hv) (fun h => hd ⟨v, hv, h⟩) fun h => hb ⟨v, hv, h⟩
      refine ⟨.text cells, ?_, iff_of_false (fun h => by cases h) hb, hread⟩
      rw [if_neg fun h => hb (List.any_eq_true.1 h), hcells]
      rfl

theorem isNull_of_valueOf {v : ParameterValue} (h : valueOf v = .null) : isNull v := by
  cases v with
  | null typeName => rfl
  | f64 bits =>
    simp only [valueOf, doubleOf] at h
    split_ifs at h
  | decimal text =>
    simp only [valueOf] at h
    split at h <;> cases h
  | _ => cases h

theorem isNull_of_accept {provider : ProviderKind} {v v' : ParameterValue} {operand : OperandType}
    (h : admitValue provider v operand = .ok v') (hnull : isNull v') : isNull v := by
  have hmean := (admit_faithful h).meaning
  cases v' with
  | null typeName =>
    rw [meaning_of_none (v := .null typeName) rfl] at hmean
    apply isNull_of_valueOf
    unfold meaning at hmean
    split at hmean
    next text htext =>
      split_ifs at hmean
      · cases hmean
      · exact hmean.symm
    next => exact hmean.symm
  | _ => cases hnull

/-- Only NULL is admitted as NULL. -/
theorem isNull_of_admitWithCatalog {described : DataType} {catalog : Option OperandType}
    {v v' : ParameterValue} (h : admitWithCatalog dates timestamps v described catalog = .ok v')
    (hnull : isNull v') : isNull v := by
  unfold admitWithCatalog at h
  obtain ⟨⟨⟩, -, h⟩ := bind_eq_ok.1 h
  split at h
  next => exact isNull_of_accept h hnull
  next =>
    unfold admitDescribed at h
    obtain ⟨⟨⟩, -, h⟩ := bind_eq_ok.1 h
    split at h
    next bytes hbytes => cases isNull_of_accept h hnull
    next =>
      obtain ⟨admitted, haccept, h⟩ := bind_eq_ok.1 h
      obtain ⟨-, -, h⟩ := bind_eq_ok.1 h
      cases h
      exact isNull_of_accept haccept hnull

end Columns

/-! ## Rows -/

section Rows

variable {dates : String → Bool} {timestamps : String → Option Moment}

theorem validate_eq_ok {values : List ParameterValue} :
    validate dates timestamps values = .ok () ↔
      ∀ v ∈ values, validateOne dates timestamps v = .ok () := by
  induction values with
  | nil => exact iff_of_true rfl fun v hv => (by cases hv)
  | cons v values ih =>
    rw [List.forall_mem_cons, ← ih, validate, bind_eq_ok]
    exact ⟨fun ⟨⟨⟩, h⟩ => h, fun h => ⟨(), h⟩⟩

theorem validateRows_eq_ok {rows : List (List ParameterValue)} :
    validateRows dates timestamps rows = .ok () ↔
      ∀ row ∈ rows, ∀ v ∈ row, validateOne dates timestamps v = .ok () := by
  induction rows with
  | nil => exact iff_of_true rfl fun row hrow => (by cases hrow)
  | cons row rows ih =>
    rw [List.forall_mem_cons, ← ih, ← validate_eq_ok, validateRows, bind_eq_ok]
    exact ⟨fun ⟨⟨⟩, h⟩ => h, fun h => ⟨(), h⟩⟩

theorem mem_columnOf {rows : List (List ParameterValue)} {column : Nat} {v : ParameterValue} :
    v ∈ columnOf rows column ↔ ∃ row ∈ rows, row[column]? = some v :=
  List.mem_filterMap

/-- A row has its value in every column. -/
theorem getElem?_columnOf {rows : List (List ParameterValue)} {column arity : Nat}
    (hrect : ∀ row ∈ rows, row.length = arity) (h : column < arity) (i : Nat) :
    (columnOf rows column)[i]? = rows[i]?.bind fun row => row[column]? := by
  induction rows generalizing i with
  | nil => rfl
  | cons row rows ih =>
    rw [List.forall_mem_cons] at hrect
    obtain ⟨v, hv⟩ : ∃ v, row[column]? = some v :=
      ⟨_, List.getElem?_eq_getElem (by rw [hrect.1]; exact h)⟩
    have hcons : columnOf (row :: rows) column = v :: columnOf rows column := by
      unfold columnOf
      rw [List.filterMap_cons, hv]
    rw [hcons]
    cases i with
    | zero => exact hv.symm
    | succ i => exact ih hrect.2 i

theorem encode_eq_ok {rows : List (List ParameterValue)} {arity : Nat}
    {columns : List ArrayColumn} :
    encode dates timestamps rows arity = .ok columns ↔
      (∀ row ∈ rows, ∀ v ∈ row, validateOne dates timestamps v = .ok ()) ∧
        columns.length = arity ∧ ∀ c, c < arity →
          ∃ column, columns[c]? = some column ∧ encodeColumn (columnOf rows c) = .ok column := by
  unfold encode
  rw [← validateRows_eq_ok, bind_eq_ok]
  simp only [mapM_eq_ok_iff, List.length_range]
  constructor
  · rintro ⟨⟨⟩, hvalid, hlen, h⟩
    exact ⟨hvalid, hlen, fun c hc => h c c (List.getElem?_range hc)⟩
  · rintro ⟨hvalid, hlen, h⟩
    refine ⟨(), hvalid, hlen, fun i c hc => ?_⟩
    obtain ⟨hi, rfl⟩ := List.getElem?_eq_some_iff.1 hc
    rw [List.length_range] at hi
    rw [List.getElem_range]
    exact h i hi

/-- The steps over a row, its described types and the answers of the catalog. -/
theorem mapM_entries {β : Type}
    {f : (ParameterValue × DataType) × Option OperandType → Result β}
    {row : List ParameterValue} {described : List DataType} {answers : List (Option OperandType)}
    {bs : List β} (hd : described.length = row.length) (ha : answers.length = row.length) :
    ((row.zip described).zip answers).mapM f = .ok bs ↔
      bs.length = row.length ∧ ∀ (c : Nat) v kind answer, row[c]? = some v →
        described[c]? = some kind → answers[c]? = some answer →
          ∃ b, bs[c]? = some b ∧ f ((v, kind), answer) = .ok b := by
  rw [mapM_eq_ok_iff, List.length_zip, List.length_zip, hd, ha, Nat.min_self, Nat.min_self]
  refine and_congr_right fun _ => ⟨fun h c v kind answer hv hk hanswer => ?_, fun h c entry he => ?_⟩
  · refine h c ((v, kind), answer) ?_
    rw [List.getElem?_zip_eq_some, List.getElem?_zip_eq_some]
    exact ⟨⟨hv, hk⟩, hanswer⟩
  · rw [List.getElem?_zip_eq_some, List.getElem?_zip_eq_some] at he
    exact h c _ _ _ he.1.1 he.1.2 he.2

theorem getElem?_textOperands {catalog : Nat → Option OperandType} {count c : Nat}
    (h : c < count) : (textOperands catalog count)[c]? = some (catalog c) := by
  unfold textOperands
  rw [List.getElem?_map, List.getElem?_range h]
  rfl

theorem admitRow_eq_ok {described : List DataType} {catalog : Nat → Option OperandType}
    {row values : List ParameterValue} :
    admitRow dates timestamps described (textOperands catalog row.length) row = .ok values ↔
      row.length = described.length ∧ values.length = row.length ∧
        ∀ (c : Nat) v kind, row[c]? = some v → described[c]? = some kind → ∃ v', values[c]? = some v' ∧
          admitWithCatalog dates timestamps v kind (catalog c) = .ok v' := by
  unfold admitRow
  rw [bind_eq_ok]
  have hlength : (textOperands catalog row.length).length = row.length := by
    unfold textOperands
    rw [List.length_map, List.length_range]
  constructor
  · rintro ⟨⟨⟩, harity, h⟩
    rw [failIf_eq_ok, not_not] at harity
    rw [mapM_entries harity.symm hlength] at h
    refine ⟨harity, h.1, fun c v kind hv hk => h.2 c v kind (catalog c) hv hk ?_⟩
    exact getElem?_textOperands (List.getElem?_eq_some_iff.1 hv).1
  · rintro ⟨harity, hlen, h⟩
    refine ⟨(), failIf_neg (not_not.2 harity), ?_⟩
    rw [mapM_entries harity.symm hlength]
    refine ⟨hlen, fun c v kind answer hv hk hanswer => ?_⟩
    rw [getElem?_textOperands (List.getElem?_eq_some_iff.1 hv).1] at hanswer
    cases hanswer
    exact h c v kind hv hk

/-- The catalog is asked for texts only. -/
theorem bindWithCatalog_of_not_text {v : ParameterValue} {described : DataType}
    (h : ¬ isText (operandOf described)) (answer answer' : Option OperandType) :
    bindWithCatalog dates timestamps v described answer =
      bindWithCatalog dates timestamps v described answer' := by
  unfold bindWithCatalog admitWithCatalog
  simp only [if_neg h]

theorem bindDescribed_eq_ok {described : List DataType} {catalog : Nat → Option OperandType}
    {row : List ParameterValue} {bounds : List Bound} :
    bindDescribed dates timestamps row described catalog = .ok bounds ↔
      row.length = described.length ∧ bounds.length = row.length ∧
        ∀ (c : Nat) v kind, row[c]? = some v → described[c]? = some kind → ∃ b, bounds[c]? = some b ∧
          bindWithCatalog dates timestamps v kind (catalog c) = .ok b := by
  unfold bindDescribed
  rw [bind_eq_ok]
  have hlength : (textOperands catalog row.length).length = row.length := by
    unfold textOperands
    rw [List.length_map, List.length_range]
  -- the answers the row is bound with
  generalize hanswers : (if described.any fun kind => isText (operandOf kind) then
    textOperands catalog row.length else List.replicate row.length none) = answers
  have hcount : answers.length = row.length := by
    rw [← hanswers]
    split_ifs
    · exact hlength
    · exact List.length_replicate
  have hanswer : ∀ (c : Nat) v kind answer, row[c]? = some v → described[c]? = some kind →
      answers[c]? = some answer → bindWithCatalog dates timestamps v kind answer =
        bindWithCatalog dates timestamps v kind (catalog c) := by
    intro c v kind answer hv hk hc
    rw [← hanswers] at hc
    split_ifs at hc with hany
    · rw [getElem?_textOperands (List.getElem?_eq_some_iff.1 hv).1] at hc
      cases hc
      rfl
    · refine bindWithCatalog_of_not_text (fun htext => hany ?_) _ _
      exact List.any_eq_true.2 ⟨kind, List.mem_of_getElem? hk, htext⟩
  constructor
  · rintro ⟨⟨⟩, harity, h⟩
    rw [failIf_eq_ok, not_not] at harity
    rw [mapM_entries harity hcount] at h
    refine ⟨harity.symm, h.1, fun c v kind hv hk => ?_⟩
    obtain ⟨answer, hc⟩ : ∃ answer, answers[c]? = some answer :=
      ⟨_, List.getElem?_eq_getElem (by rw [hcount]; exact (List.getElem?_eq_some_iff.1 hv).1)⟩
    obtain ⟨b, hb, hbind⟩ := h.2 c v kind answer hv hk hc
    exact ⟨b, hb, by rw [← hanswer c v kind answer hv hk hc]; exact hbind⟩
  · rintro ⟨harity, hlen, h⟩
    refine ⟨(), failIf_neg (not_not.2 harity.symm), ?_⟩
    rw [mapM_entries harity.symm hcount]
    refine ⟨hlen, fun c v kind answer hv hk hc => ?_⟩
    obtain ⟨b, hb, hbind⟩ := h c v kind hv hk
    exact ⟨b, hb, by rw [hanswer c v kind answer hv hk hc]; exact hbind⟩

/-- What binds a value. -/
theorem bindWithCatalog_eq_ok {v : ParameterValue} {described : DataType}
    {answer : Option OperandType} {b : Bound} :
    bindWithCatalog dates timestamps v described answer = .ok b ↔
      ∃ v', admitWithCatalog dates timestamps v described answer = .ok v' ∧
        bindAdmitted timestamps described v' = .ok b := by
  unfold bindWithCatalog
  rw [bind_eq_ok]
  constructor
  · rintro ⟨⟨⟩, -, h⟩
    exact bind_eq_ok.1 h
  · rintro ⟨v', haccept, hbind⟩
    refine ⟨(), ?_, bind_eq_ok.2 ⟨v', haccept, hbind⟩⟩
    unfold admitWithCatalog at haccept
    obtain ⟨⟨⟩, hvalid, -⟩ := bind_eq_ok.1 haccept
    exact hvalid

theorem descriptions_eq_ok {columns : List ArrayColumn} {targets : List DataType}
    {descs : List BindParamDesc} :
    descriptions columns targets = .ok descs ↔
      (targets.length = columns.length ∧ ∀ (c : Nat) column kind, columns[c]? = some column →
        targets[c]? = some kind → (column.isBinary ↔ isBinaryOperand (operandOf kind))) ∧
      descs = (columns.zip targets).map fun entry => ⟨entry.1.bufferDesc, entry.2⟩ := by
  unfold descriptions
  simp only [bind_eq_ok, failIf_eq_ok, not_not, List.any_eq_true, not_exists, not_and]
  constructor
  · rintro ⟨-, hlen, -, h, hdescs⟩
    refine ⟨⟨hlen, fun c column kind hc hk => ?_⟩, (Except.ok.inj hdescs).symm⟩
    have hmem : (column, kind) ∈ columns.zip targets :=
      List.mem_of_getElem? (List.getElem?_zip_eq_some.2 ⟨hc, hk⟩)
    have hsame := h (column, kind) hmem
    rw [decide_eq_true_eq, not_not] at hsame
    exact Bool.eq_iff_iff.1 hsame
  · rintro ⟨⟨hlen, h⟩, rfl⟩
    refine ⟨(), hlen, (), fun entry hentry => ?_, rfl⟩
    obtain ⟨c, hc⟩ := List.getElem?_of_mem hentry
    rw [List.getElem?_zip_eq_some] at hc
    rw [decide_eq_true_eq, not_not]
    exact Bool.eq_iff_iff.2 (h c entry.1 entry.2 hc.1 hc.2)

theorem le_room {lengths : List Nat} {n : Nat} (h : n ∈ lengths) : n ≤ room lengths := by
  obtain ⟨longest, hlongest⟩ := Option.isSome_iff_exists.1 (List.isSome_max?_of_mem h)
  unfold room
  rw [hlongest]
  exact ((List.max?_eq_some_iff.1 hlongest).2 n h).trans (Nat.le_max_left ..)

/-- A buffer has room for every cell of its column. -/
theorem fillColumn_bufferDesc (column : ArrayColumn) :
    fillColumn column.bufferDesc column = .ok true := by
  cases column with
  | double values => rfl
  | binary values | text values =>
    refine congrArg Except.ok (List.all_eq_true.2 fun value hvalue => decide_eq_true ?_)
    exact le_room (List.mem_map_of_mem hvalue)

/-- **The buffers take the columns as they are.** -/
theorem fill_descriptions {columns : List ArrayColumn} {targets : List DataType}
    {descs : List BindParamDesc} (h : descriptions columns targets = .ok descs) :
    fill (descs.zip columns) = .filled columns := by
  obtain ⟨⟨hlen, -⟩, rfl⟩ := descriptions_eq_ok.1 h
  clear h
  induction columns generalizing targets with
  | nil => simp [fill]
  | cons column columns ih =>
    obtain ⟨target, targets, rfl⟩ := List.exists_cons_of_length_eq_add_one hlen
    rw [List.zip_cons_cons, List.map_cons, List.zip_cons_cons, fill, fillColumn_bufferDesc,
      ih (Nat.succ.inj hlen)]
    rfl

/-- The rows as they are admitted. -/
structure Admitted (dates : String → Bool) (timestamps : String → Option Moment)
    (described : List DataType) (catalog : Nat → Option OperandType)
    (rows admitted : List (List ParameterValue)) : Prop where
  length : admitted.length = rows.length
  arity : ∀ row ∈ rows, row.length = described.length
  row : ∀ (r : Nat) row, rows[r]? = some row → ∃ values, admitted[r]? = some values ∧
    values.length = row.length ∧ ∀ (c : Nat) v kind, row[c]? = some v → described[c]? = some kind →
      ∃ v', values[c]? = some v' ∧
        admitWithCatalog dates timestamps v kind (catalog c) = .ok v'

theorem mapM_admitRow_eq_ok {described : List DataType} {catalog : Nat → Option OperandType}
    {rows admitted : List (List ParameterValue)} {arity : Nat}
    (hrect : ∀ row ∈ rows, row.length = arity) :
    rows.mapM (admitRow dates timestamps described (textOperands catalog arity)) = .ok admitted ↔
      Admitted dates timestamps described catalog rows admitted := by
  rw [mapM_eq_ok_iff]
  constructor
  · rintro ⟨hlen, h⟩
    have hrow : ∀ (r : Nat) row, rows[r]? = some row → ∃ values, admitted[r]? = some values ∧
        admitRow dates timestamps described (textOperands catalog row.length) row = .ok values := by
      intro r row hr
      rw [hrect row (List.mem_of_getElem? hr)]
      exact h r row hr
    refine ⟨hlen, fun row hmem => ?_, fun r row hr => ?_⟩
    · obtain ⟨r, hr⟩ := List.getElem?_of_mem hmem
      obtain ⟨values, -, haccept⟩ := hrow r row hr
      exact (admitRow_eq_ok.1 haccept).1
    · obtain ⟨values, hvalues, haccept⟩ := hrow r row hr
      exact ⟨values, hvalues, (admitRow_eq_ok.1 haccept).2⟩
  · intro h
    refine ⟨h.length, fun r row hr => ?_⟩
    obtain ⟨values, hvalues, hrow⟩ := h.row r row hr
    refine ⟨values, hvalues, ?_⟩
    rw [← hrect row (List.mem_of_getElem? hr)]
    exact admitRow_eq_ok.2 ⟨h.arity row (List.mem_of_getElem? hr), hrow⟩

theorem executeParameterArray_eq {rows : List (List ParameterValue)} {described : List DataType}
    {catalog : Nat → Option OperandType} :
    executeParameterArray dates timestamps rows described catalog =
      match describedArray dates timestamps rows described catalog with
      | .ok (columns, _) => .filled columns
      | .error e => .refused e := by
  unfold executeParameterArray
  cases hdescribed : describedArray dates timestamps rows described catalog with
  | error e => rfl
  | ok r =>
    obtain ⟨columns, descs⟩ := r
    have hfill : fill (descs.zip columns) = .filled columns := by
      cases rows with
      | nil =>
        cases hdescribed
        rfl
      | cons first rest =>
        simp only [describedArray, bind_eq_ok] at hdescribed
        obtain ⟨_, -, _, -, _, -, _, -, _, hdescriptions, h⟩ := hdescribed
        cases h
        exact fill_descriptions hdescriptions
    exact hfill

/-- The steps of the array. -/
theorem executeParameterArray_eq_filled {rows : List (List ParameterValue)}
    {described : List DataType} {catalog : Nat → Option OperandType} {arity : Nat}
    {columns : List ArrayColumn} (hne : rows ≠ []) (hpos : 0 < arity)
    (hrect : ∀ row ∈ rows, row.length = arity) :
    executeParameterArray dates timestamps rows described catalog = .filled columns ↔
      (∃ raw, encode dates timestamps rows arity = .ok raw) ∧
        ∃ admitted, Admitted dates timestamps described catalog rows admitted ∧
          encode dates timestamps admitted arity = .ok columns ∧
          ∃ descs, descriptions columns (described.take arity) = .ok descs := by
  have hfilled : executeParameterArray dates timestamps rows described catalog = .filled columns ↔
      ∃ descs, describedArray dates timestamps rows described catalog = .ok (columns, descs) := by
    rw [executeParameterArray_eq]
    cases describedArray dates timestamps rows described catalog with
    | error e => simp
    | ok r => exact ⟨fun h => ⟨r.2, by cases h; rfl⟩, fun ⟨descs, h⟩ => by cases h; rfl⟩
  rw [hfilled]
  cases rows with
  | nil => exact absurd rfl hne
  | cons first rest =>
    have hfirst : first.length = arity := hrect first (List.mem_cons_self ..)
    have hall : (first :: rest).all fun row => row.length = arity := by
      rw [List.all_eq_true]
      intro row hrow
      exact decide_eq_true (hrect row hrow)
    unfold describedArray
    dsimp only
    rw [hfirst, failIf_neg (fun h => h.elim (fun h => by omega) fun h => h hall), ok_bind]
    simp only [bind_eq_ok]
    constructor
    · rintro ⟨descs, raw, hraw, admitted, hadmitted, encoded, hencoded, descs', hdescriptions, h⟩
      cases h
      exact ⟨⟨raw, hraw⟩, admitted, (mapM_admitRow_eq_ok hrect).1 hadmitted, hencoded,
        descs, hdescriptions⟩
    · rintro ⟨⟨raw, hraw⟩, admitted, hadmitted, hencoded, descs, hdescriptions⟩
      exact ⟨descs, raw, hraw, admitted, (mapM_admitRow_eq_ok hrect).2 hadmitted, columns, hencoded,
        descs, hdescriptions, rfl⟩

end Rows

/-! ## The array and the rows -/

section Agreement

variable {dates : String → Bool} {timestamps : String → Option Moment}
variable {rows admitted : List (List ParameterValue)} {described : List DataType}
variable {catalog : Nat → Option OperandType} {arity : Nat}

/-- No decimal is held as a subnormal double only. -/
def NoTiny (described : List DataType) (rows : List (List ParameterValue)) : Prop :=
  ∀ row ∈ rows, ∀ (c : Nat) v kind, row[c]? = some v → described[c]? = some kind → ¬ IsTiny kind v

/-- A column for bytes has a value. -/
def BytesPresent (described : List DataType) (rows : List (List ParameterValue)) : Prop :=
  ∀ (c : Nat) kind, described[c]? = some kind → isBinaryOperand (operandOf kind) → rows ≠ [] →
    ∃ v ∈ columnOf rows c, ¬ isNull v

/-- Where an admitted value of a column comes from. -/
theorem Admitted.source (h : Admitted dates timestamps described catalog rows admitted)
    {c : Nat} {kind : DataType} (hk : described[c]? = some kind) {v' : ParameterValue}
    (hv' : v' ∈ columnOf admitted c) :
    ∃ row ∈ rows, ∃ v, row[c]? = some v ∧
      admitWithCatalog dates timestamps v kind (catalog c) = .ok v' := by
  obtain ⟨values, hvalues, hcell⟩ := mem_columnOf.1 hv'
  obtain ⟨r, hr⟩ := List.getElem?_of_mem hvalues
  have hlt : r < rows.length := by
    rw [← h.length]
    exact (List.getElem?_eq_some_iff.1 hr).1
  obtain ⟨values', hvalues', hlen, hcells⟩ := h.row r _ (List.getElem?_eq_getElem hlt)
  rw [hr] at hvalues'
  cases hvalues'
  have hc : c < rows[r].length := by
    rw [← hlen]
    exact (List.getElem?_eq_some_iff.1 hcell).1
  obtain ⟨w, hw, haccept⟩ := hcells c _ kind (List.getElem?_eq_getElem hc) hk
  rw [hcell] at hw
  cases hw
  exact ⟨_, List.getElem_mem hlt, _, List.getElem?_eq_getElem hc, haccept⟩

theorem Admitted.rect (h : Admitted dates timestamps described catalog rows admitted) :
    ∀ values ∈ admitted, values.length = described.length := by
  intro values hvalues
  obtain ⟨r, hr⟩ := List.getElem?_of_mem hvalues
  have hlt : r < rows.length := by
    rw [← h.length]
    exact (List.getElem?_eq_some_iff.1 hr).1
  obtain ⟨values', hvalues', hlen, -⟩ := h.row r _ (List.getElem?_eq_getElem hlt)
  rw [hr] at hvalues'
  cases hvalues'
  rw [hlen]
  exact h.arity _ (List.getElem_mem hlt)

/-- The column of the admitted values. -/
theorem Admitted.column (h : Admitted dates timestamps described catalog rows admitted)
    (htiny : NoTiny described rows) {c : Nat} {kind : DataType} (hk : described[c]? = some kind) :
    ∃ column, encodeColumn (columnOf admitted c) = .ok column ∧
      (column.isBinary ↔ ∃ v ∈ columnOf admitted c, isBytes v) ∧
      ∀ (r : Nat) v, (columnOf admitted c)[r]? = some v →
        cellDenotes (operandOf kind) r column = some (valueOf v) := by
  refine encodeColumn_denotes fun v' hv' => ?_
  obtain ⟨row, hrow, v, hv, haccept⟩ := h.source hk hv'
  exact (admitWithCatalog_spec (htiny row hrow c v kind hv hk) haccept).1

/-- Bytes are in the columns for bytes. -/
theorem Admitted.bytes_iff (h : Admitted dates timestamps described catalog rows admitted)
    (htiny : NoTiny described rows) (hbytes : BytesPresent described rows) (hne : rows ≠ [])
    {c : Nat} {kind : DataType} (hk : described[c]? = some kind) :
    (∃ v ∈ columnOf admitted c, isBytes v) ↔ isBinaryOperand (operandOf kind) := by
  constructor
  · rintro ⟨v', hv', hb⟩
    obtain ⟨row, hrow, v, hv, haccept⟩ := h.source hk hv'
    exact isBinary_of_bytes (admitWithCatalog_spec (htiny row hrow c v kind hv hk) haccept).1 hb
  · intro hbinary
    obtain ⟨v, hv, hnull⟩ := hbytes c kind hk hbinary hne
    obtain ⟨row, hrow, hcell⟩ := mem_columnOf.1 hv
    obtain ⟨r, hr⟩ := List.getElem?_of_mem hrow
    obtain ⟨values, hvalues, -, hcells⟩ := h.row r row hr
    obtain ⟨v', hv', haccept⟩ := hcells c v kind hcell hk
    refine ⟨v', mem_columnOf.2 ⟨values, List.mem_of_getElem? hvalues, hv'⟩, ?_⟩
    have hfit := (admitWithCatalog_spec (htiny row hrow c v kind hcell hk) haccept).1
    cases hop : operandOf kind with
    | binary length padded =>
      rw [hop] at hfit
      cases v' with
      | bytes bytes => rfl
      | null typeName => exact absurd (isNull_of_admitWithCatalog haccept rfl) hnull
      | _ => cases hfit
    | _ => rw [hop] at hbinary; cases hbinary

theorem exists_bindDescribed_iff {row : List ParameterValue} :
    (∃ bounds, bindDescribed dates timestamps row described catalog = .ok bounds) ↔
      row.length = described.length ∧ ∀ (c : Nat) v kind, row[c]? = some v →
        described[c]? = some kind → ∃ b, bindWithCatalog dates timestamps v kind (catalog c) = .ok b := by
  constructor
  · rintro ⟨bounds, h⟩
    obtain ⟨hlen, -, hcells⟩ := bindDescribed_eq_ok.1 h
    refine ⟨hlen, fun c v kind hv hk => ?_⟩
    obtain ⟨b, -, hb⟩ := hcells c v kind hv hk
    exact ⟨b, hb⟩
  · rintro ⟨hlen, h⟩
    have hcell : ∀ c, c < row.length → ∃ b, ∀ v kind, row[c]? = some v →
        described[c]? = some kind →
          bindWithCatalog dates timestamps v kind (catalog c) = .ok b := by
      intro c hc
      have hv := List.getElem?_eq_getElem hc
      have hk := List.getElem?_eq_getElem (hlen ▸ hc)
      obtain ⟨b, hb⟩ := h c _ _ hv hk
      refine ⟨b, fun v kind hv' hk' => ?_⟩
      cases hv.symm.trans hv'
      cases hk.symm.trans hk'
      exact hb
    obtain ⟨bounds, hlength, hbounds⟩ := exists_list hcell
    refine ⟨bounds, bindDescribed_eq_ok.2 ⟨hlen, hlength, fun c v kind hv hk => ?_⟩⟩
    obtain ⟨b, hget, hb⟩ := hbounds c (List.getElem?_eq_some_iff.1 hv).1
    exact ⟨b, hget, hb v kind hv hk⟩

/-- Admitted rows are bound exactly when their values pass the checks again. -/
theorem Admitted.binds_iff (hchrono : ReadsChrono dates timestamps)
    (h : Admitted dates timestamps described catalog rows admitted)
    (htiny : NoTiny described rows) :
    (∀ values ∈ admitted, ∀ v ∈ values, validateOne dates timestamps v = .ok ()) ↔
      ∀ row ∈ rows, ∃ bounds, bindDescribed dates timestamps row described catalog = .ok bounds := by
  simp only [exists_bindDescribed_iff]
  constructor
  · intro hvalid row hrow
    refine ⟨h.arity row hrow, fun c v kind hv hk => ?_⟩
    obtain ⟨r, hr⟩ := List.getElem?_of_mem hrow
    obtain ⟨values, hvalues, -, hcells⟩ := h.row r row hr
    obtain ⟨v', hv', haccept⟩ := hcells c v kind hv hk
    obtain ⟨hfit, hready⟩ := admitWithCatalog_spec (htiny row hrow c v kind hv hk) haccept
    obtain ⟨b, hb⟩ := (validateOne_iff_bind hchrono hfit hready).1
      (hvalid values (List.mem_of_getElem? hvalues) v' (List.mem_of_getElem? hv'))
    exact ⟨b, bindWithCatalog_eq_ok.2 ⟨v', haccept, hb⟩⟩
  · intro hbind values hvalues v' hv'
    obtain ⟨c, hc⟩ := List.getElem?_of_mem hv'
    have hcount := (List.getElem?_eq_some_iff.1 hc).1
    rw [h.rect values hvalues] at hcount
    have hk := List.getElem?_eq_getElem hcount
    obtain ⟨row, hrow, v, hv, haccept⟩ := h.source hk (mem_columnOf.2 ⟨values, hvalues, hc⟩)
    obtain ⟨hfit, hready⟩ := admitWithCatalog_spec (htiny row hrow c v _ hv hk) haccept
    obtain ⟨b, hb⟩ := (hbind row hrow).2 c v _ hv hk
    obtain ⟨w, hw, hbound⟩ := bindWithCatalog_eq_ok.1 hb
    rw [haccept] at hw
    cases hw
    exact (validateOne_iff_bind hchrono hfit hready).2 ⟨b, hbound⟩

/-- Rows that are bound are admitted. -/
theorem exists_admitted (hbind : ∀ row ∈ rows,
    ∃ bounds, bindDescribed dates timestamps row described catalog = .ok bounds) :
    ∃ admitted, Admitted dates timestamps described catalog rows admitted := by
  have hrect : ∀ row ∈ rows, row.length = described.length := by
    intro row hrow
    exact (exists_bindDescribed_iff.1 (hbind row hrow)).1
  suffices h : ∃ admitted, rows.mapM
      (admitRow dates timestamps described (textOperands catalog described.length)) = .ok admitted by
    obtain ⟨admitted, h⟩ := h
    exact ⟨admitted, (mapM_admitRow_eq_ok hrect).1 h⟩
  rw [exists_mapM_iff]
  intro row hrow
  obtain ⟨hlen, hcells⟩ := exists_bindDescribed_iff.1 (hbind row hrow)
  have hcell : ∀ c, c < row.length → ∃ v', ∀ v kind, row[c]? = some v →
      described[c]? = some kind →
        admitWithCatalog dates timestamps v kind (catalog c) = .ok v' := by
    intro c hc
    have hv := List.getElem?_eq_getElem hc
    have hk := List.getElem?_eq_getElem (hlen ▸ hc)
    obtain ⟨b, hb⟩ := hcells c _ _ hv hk
    obtain ⟨v', haccept, -⟩ := bindWithCatalog_eq_ok.1 hb
    refine ⟨v', fun v kind hv' hk' => ?_⟩
    cases hv.symm.trans hv'
    cases hk.symm.trans hk'
    exact haccept
  obtain ⟨values, hlength, hvalues⟩ := exists_list hcell
  refine ⟨values, ?_⟩
  rw [← hlen]
  refine admitRow_eq_ok.2 ⟨hlen, hlength, fun c v kind hv hk => ?_⟩
  obtain ⟨v', hget, haccept⟩ := hvalues c (List.getElem?_eq_some_iff.1 hv).1
  exact ⟨v', hget, haccept v kind hv hk⟩

/-- The values that are bound passed the first checks. -/
theorem validateOne_of_bindDescribed {row : List ParameterValue} {v : ParameterValue}
    (h : ∃ bounds, bindDescribed dates timestamps row described catalog = .ok bounds)
    (hv : v ∈ row) : validateOne dates timestamps v = .ok () := by
  obtain ⟨hlen, hcells⟩ := exists_bindDescribed_iff.1 h
  obtain ⟨c, hc⟩ := List.getElem?_of_mem hv
  have hcount := (List.getElem?_eq_some_iff.1 hc).1
  rw [hlen] at hcount
  obtain ⟨b, hb⟩ := hcells c v _ hc (List.getElem?_eq_getElem hcount)
  unfold bindWithCatalog at hb
  obtain ⟨⟨⟩, hvalid, -⟩ := bind_eq_ok.1 hb
  exact hvalid

theorem exists_encode_iff (hvalid : ∀ row ∈ rows, ∀ v ∈ row, validateOne dates timestamps v = .ok ())
    (hrect : ∀ row ∈ rows, row.length = arity) :
    (∃ columns, encode dates timestamps rows arity = .ok columns) ↔
      ∀ c, ¬ Mixed (columnOf rows c) := by
  have hcolumn : ∀ c, ∀ v ∈ columnOf rows c, validateOne dates timestamps v = .ok () := by
    intro c v hv
    obtain ⟨row, hrow, hcell⟩ := mem_columnOf.1 hv
    exact hvalid row hrow v (List.mem_of_getElem? hcell)
  -- past the columns there is nothing
  have hpast : ∀ c, arity ≤ c → ∀ v, v ∉ columnOf rows c := by
    intro c hc v hv
    obtain ⟨row, hrow, hcell⟩ := mem_columnOf.1 hv
    have := (List.getElem?_eq_some_iff.1 hcell).1
    rw [hrect row hrow] at this
    omega
  constructor
  · rintro ⟨columns, h⟩ c
    by_cases hc : c < arity
    · obtain ⟨column, -, hencode⟩ := (encode_eq_ok.1 h).2.2 c hc
      exact (encodeColumn_ok_iff (hcolumn c)).1 ⟨column, hencode⟩
    · rintro (⟨⟨v, hv, -⟩, -⟩ | ⟨⟨v, hv, -⟩, -⟩) <;> exact hpast c (Nat.not_lt.1 hc) v hv
  · intro h
    obtain ⟨columns, hlength, hcells⟩ :=
      exists_list fun c (_ : c < arity) => (encodeColumn_ok_iff (hcolumn c)).2 (h c)
    exact ⟨columns, encode_eq_ok.2 ⟨hvalid, hlength, hcells⟩⟩

/-- Admitted rows that are bound are encoded. -/
theorem Admitted.exists_encode (hchrono : ReadsChrono dates timestamps)
    (h : Admitted dates timestamps described catalog rows admitted) (htiny : NoTiny described rows)
    (hbind : ∀ row ∈ rows,
      ∃ bounds, bindDescribed dates timestamps row described catalog = .ok bounds) :
    ∃ columns, encode dates timestamps admitted described.length = .ok columns := by
  have hcell : ∀ c, c < described.length →
      ∃ column, encodeColumn (columnOf admitted c) = .ok column := by
    intro c hc
    obtain ⟨column, hcolumn, -⟩ := h.column htiny (List.getElem?_eq_getElem hc)
    exact ⟨column, hcolumn⟩
  obtain ⟨columns, hlength, hcells⟩ := exists_list hcell
  exact ⟨columns, encode_eq_ok.2 ⟨(h.binds_iff hchrono htiny).2 hbind, hlength, hcells⟩⟩

/-- A column that is encoded is the column of the admitted values. -/
theorem Admitted.encoded (h : Admitted dates timestamps described catalog rows admitted)
    (htiny : NoTiny described rows) {columns : List ArrayColumn}
    (hencoded : encode dates timestamps admitted described.length = .ok columns) {c : Nat}
    {kind : DataType} (hk : described[c]? = some kind) :
    ∃ column, columns[c]? = some column ∧
      (column.isBinary ↔ ∃ v ∈ columnOf admitted c, isBytes v) ∧
      ∀ (r : Nat) v, (columnOf admitted c)[r]? = some v →
        cellDenotes (operandOf kind) r column = some (valueOf v) := by
  obtain ⟨column, hcolumn, hspec⟩ := h.column htiny hk
  obtain ⟨column', hget, hencode⟩ :=
    (encode_eq_ok.1 hencoded).2.2 c (List.getElem?_eq_some_iff.1 hk).1
  rw [hcolumn] at hencode
  cases hencode
  exact ⟨column, hget, hspec⟩

/-- A cell of the array and the binding of its value denote one value. -/
theorem Admitted.cell_denotes (hchrono : ReadsChrono dates timestamps)
    (h : Admitted dates timestamps described catalog rows admitted) (htiny : NoTiny described rows)
    {columns : List ArrayColumn}
    (hencoded : encode dates timestamps admitted described.length = .ok columns) {r : Nat}
    {row : List ParameterValue} {bounds : List Bound} (hr : rows[r]? = some row)
    (hbind : bindDescribed dates timestamps row described catalog = .ok bounds) {c : Nat}
    {kind : DataType} (hk : described[c]? = some kind) :
    ∃ denotation, columns[c]?.bind (cellDenotes (operandOf kind) r) = some denotation ∧
      bounds[c]?.map (boundDenotes (operandOf kind)) = some denotation := by
  obtain ⟨hlen, -, hcells⟩ := bindDescribed_eq_ok.1 hbind
  have hrow := List.mem_of_getElem? hr
  have hc : c < described.length := (List.getElem?_eq_some_iff.1 hk).1
  have hv := List.getElem?_eq_getElem (hlen ▸ hc : c < row.length)
  obtain ⟨b, hb, hbound⟩ := hcells c _ kind hv hk
  obtain ⟨v', haccept, hbound⟩ := bindWithCatalog_eq_ok.1 hbound
  obtain ⟨hfit, hready⟩ := admitWithCatalog_spec (htiny row hrow c _ kind hv hk) haccept
  obtain ⟨values, hvalues, -, hsame⟩ := h.row r row hr
  obtain ⟨w, hw, haccept'⟩ := hsame c _ kind hv hk
  rw [haccept] at haccept'
  cases haccept'
  obtain ⟨column, hcolumn, -, hdenotes⟩ := h.encoded htiny hencoded hk
  refine ⟨valueOf v', ?_, ?_⟩
  · rw [hcolumn, Option.bind_some]
    refine hdenotes r v' ?_
    rw [getElem?_columnOf h.rect hc, hvalues, Option.bind_some, hw]
  · rw [hb, Option.map_some, bindAdmitted_denotes hchrono hfit hready hbound]

/-- **The array takes the rows that the single bindings take, where no column is mixed, and its
cells denote what these denote; no cell is too small for its value.** -/
theorem executeParameterArray_agrees (hchrono : ReadsChrono dates timestamps) (hpos : 0 < arity)
    (hrect : ∀ row ∈ rows, row.length = arity) (hbytes : BytesPresent described rows)
    (htiny : NoTiny described rows) :
    ((∃ columns, executeParameterArray dates timestamps rows described catalog = .filled columns) ↔
      (∀ c, ¬ Mixed (columnOf rows c)) ∧ ∀ row ∈ rows,
        ∃ bounds, bindDescribed dates timestamps row described catalog = .ok bounds) ∧
      executeParameterArray dates timestamps rows described catalog ≠ .panics ∧
      ∀ columns, executeParameterArray dates timestamps rows described catalog = .filled columns →
        ∀ (r : Nat) row bounds, rows[r]? = some row →
          bindDescribed dates timestamps row described catalog = .ok bounds →
            ∀ (c : Nat) kind, described[c]? = some kind →
              ∃ denotation, columns[c]?.bind (cellDenotes (operandOf kind) r) = some denotation ∧
                bounds[c]?.map (boundDenotes (operandOf kind)) = some denotation := by
  by_cases hne : rows = []
  · subst hne
    refine ⟨iff_of_true ⟨[], rfl⟩ ⟨?_, ?_⟩, nofun, ?_⟩
    · rintro c (⟨⟨v, hv, -⟩, -⟩ | ⟨⟨v, hv, -⟩, -⟩) <;> cases hv
    · intro row hrow
      cases hrow
    · intro columns _ r row bounds hrow
      cases hrow
  have hpanics : executeParameterArray dates timestamps rows described catalog ≠ .panics := by
    rw [executeParameterArray_eq]
    split <;> exact nofun
  simp only [executeParameterArray_eq_filled hne hpos hrect]
  refine ⟨⟨?_, ?_⟩, hpanics, ?_⟩
  · rintro ⟨columns, hraw, admitted, hadmitted, hencoded, -⟩
    obtain ⟨raw, hraw'⟩ := hraw
    refine ⟨(exists_encode_iff (encode_eq_ok.1 hraw').1 hrect).1 ⟨raw, hraw'⟩, ?_⟩
    exact (hadmitted.binds_iff hchrono htiny).1 (encode_eq_ok.1 hencoded).1
  · rintro ⟨hmixed, hbind⟩
    have hvalid : ∀ row ∈ rows, ∀ v ∈ row, validateOne dates timestamps v = .ok () := by
      intro row hrow v hv
      exact validateOne_of_bindDescribed (hbind row hrow) hv
    obtain ⟨admitted, hadmitted⟩ := exists_admitted hbind
    have hcount : described.length = arity := by
      obtain ⟨row, hrow⟩ := List.exists_mem_of_ne_nil rows hne
      rw [← hadmitted.arity row hrow, hrect row hrow]
    subst hcount
    obtain ⟨columns, hencoded⟩ := hadmitted.exists_encode hchrono htiny hbind
    have hlength := (encode_eq_ok.1 hencoded).2.1
    refine ⟨columns, (exists_encode_iff hvalid hrect).2 hmixed, admitted, hadmitted, hencoded, ?_⟩
    rw [List.take_of_length_le le_rfl]
    refine ⟨_, descriptions_eq_ok.2 ⟨⟨hlength.symm, fun c column kind hc hk => ?_⟩, rfl⟩⟩
    obtain ⟨column', hcolumn, hbinary, -⟩ := hadmitted.encoded htiny hencoded hk
    rw [hc] at hcolumn
    cases hcolumn
    rw [hbinary]
    exact hadmitted.bytes_iff htiny hbytes hne hk
  · rintro columns ⟨-, admitted, hadmitted, hencoded, -⟩ r row bounds hr hbind c kind hk
    have hcount : described.length = arity := by
      have hrow := List.mem_of_getElem? hr
      rw [← hadmitted.arity row hrow, hrect row hrow]
    subst hcount
    exact hadmitted.cell_denotes hchrono htiny hencoded hr hbind hk

end Agreement

/-- Readers of dates and timestamps. -/
def readDate (text : String) : Bool := chronoFreeDate text.toList

def readTimestamp (text : String) : Option Moment :=
  if validTimestamp text.toList false then some (momentOf text.toList) else none

theorem readsChrono_read : ReadsChrono readDate readTimestamp := by
  refine ⟨fun text h => h, fun text m hvalid h => ?_⟩
  unfold readTimestamp at h
  rw [if_pos hvalid] at h
  exact (Option.some.inj h).symm

def keyedRows : List (List ParameterValue) :=
  [[.i64 7, .bytes [1, 2], .string "è"], [.null "INT", .bytes [3], .null "VARCHAR"]]

def keyed : List DataType := [.bigInt, .varbinary (some 4), .varchar (some 8)]

/-- NULLs, bytes of two lengths, and a letter of two bytes. -/
theorem executeParameterArray_agrees_keyed :
    executeParameterArray readDate readTimestamp keyedRows keyed (fun _ => none) =
        .filled [.text [some ['7'], none], .binary [some [1, 2], some [3]],
          .text [some ['è'], none]] ∧
      ((∃ columns, executeParameterArray readDate readTimestamp keyedRows keyed (fun _ => none) =
          .filled columns) ↔
        (∀ c, ¬ Mixed (columnOf keyedRows c)) ∧ ∀ row ∈ keyedRows,
          ∃ bounds, bindDescribed readDate readTimestamp row keyed (fun _ => none) =
            .ok bounds) := by
  have hrect : ∀ row ∈ keyedRows, row.length = 3 := by decide
  have hkinds : ∀ (c : Nat) kind, keyed[c]? = some kind →
      c = 0 ∧ kind = .bigInt ∨ c = 1 ∧ kind = .varbinary (some 4) ∨
        c = 2 ∧ kind = .varchar (some 8) := by
    intro c kind hk
    match c with
    | 0 => exact .inl ⟨rfl, (Option.some.inj hk).symm⟩
    | 1 => exact .inr (.inl ⟨rfl, (Option.some.inj hk).symm⟩)
    | 2 => exact .inr (.inr ⟨rfl, (Option.some.inj hk).symm⟩)
    | c + 3 => cases hk
  have hbytes : BytesPresent keyed keyedRows := by
    intro c kind hk hbinary _
    rcases hkinds c kind hk with ⟨rfl, rfl⟩ | ⟨rfl, rfl⟩ | ⟨rfl, rfl⟩
    · cases hbinary
    · exact ⟨.bytes [1, 2], List.mem_cons_self .., by decide⟩
    · cases hbinary
  have htiny : NoTiny keyed keyedRows := by
    rintro row - c v kind - hk ⟨text, literal, bits, -, hop, -⟩
    rcases hkinds c kind hk with ⟨rfl, rfl⟩ | ⟨rfl, rfl⟩ | ⟨rfl, rfl⟩ <;> cases hop
  exact ⟨rfl, (executeParameterArray_agrees readsChrono_read (by decide) hrect hbytes htiny).1⟩

/-- Bytes and a text, for a column of bytes. -/
def mixedRows : List (List ParameterValue) := [[.bytes [1]], [.string "a"]]

/-- The single bindings take them, the array does not. -/
theorem executeParameterArray_refuses_mixed :
    (∀ row ∈ mixedRows, ∃ bounds, bindDescribed readDate readTimestamp row [.varbinary (some 4)]
        (fun _ => none) = .ok bounds) ∧
      ¬ ∃ columns, executeParameterArray readDate readTimestamp mixedRows [.varbinary (some 4)]
        (fun _ => none) = .filled columns := by
  constructor
  · have hbytes : bindDescribed readDate readTimestamp [.bytes [1]] [.varbinary (some 4)]
        (fun _ => none) = .ok [.bytes [1]] := rfl
    have htext : bindDescribed readDate readTimestamp [.string "a"] [.varbinary (some 4)]
        (fun _ => none) = .ok [.bytes [97]] := rfl
    intro row hrow
    rcases List.mem_cons.1 hrow with rfl | hrow
    · exact ⟨_, hbytes⟩
    · rw [List.mem_singleton.1 hrow]
      exact ⟨_, htext⟩
  · have hrefused : executeParameterArray readDate readTimestamp mixedRows [.varbinary (some 4)]
        (fun _ => none) = .refused mixed := rfl
    rintro ⟨columns, h⟩
    rw [hrefused] at h
    cases h

end Plenora.Db2.ParameterArray
