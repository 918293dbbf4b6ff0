import Plenora.Core.WkbLanguage
import Plenora.Lib.Outcome
import Plenora.Sqlserver.Inspection

/-!
# The inspections of a batch and of its rows

Both inspections measure the same cells, but not all of them, and not against the same rest of the
components.

    Agree contract plan limits batch ↔ Uniform contract plan limits batch   (inspections_agree_iff)
-/

namespace Plenora.Sqlserver.Inspection

open Plenora.Lib Plenora.Core Plenora.Core.Arrow Plenora.Core.GeometryValue
open Plenora.Core.Ewkb (EwkbInspection)

/-! ## Measures -/

/-- The value of a cell, when it is not NULL. -/
def RecordBatch.value (batch : RecordBatch) (column : WriteColumnPlan) (row : Nat) : Option Bytes :=
  batch.columns[column.inputIndex]?.bind fun array => array.value row

/-- The length a row measures of a cell. -/
def cellLength (batch : RecordBatch) (row : Nat) (column : WriteColumnPlan) : Option Nat :=
  match column.kind.width with
  | some width => some width
  | none => (batch.value column row).map Bytes.length

/-- What a row counts of a cell. -/
def cellBytes (batch : RecordBatch) (row : Nat) (column : WriteColumnPlan) : Nat :=
  (cellLength batch row column).getD 0

section Agreement

variable (contract : Field → Result ValueContract) (plan : WritePlan) (limits : Limits)

/-- The components of a value of a column, where it verifies without a limit on them. -/
def weight (column : WriteColumnPlan) (value : Bytes) : Option Nat :=
  (verifyFieldValue contract plan limits column value (2 ^ 64 - 1)).toOption.map
    fun inspection => inspection.stats.components

/-- The components of a cell. -/
def cellComponents (batch : RecordBatch) (row : Nat) (column : WriteColumnPlan) : Nat :=
  if column.kind.isSpatial then
    ((batch.value column row).bind (weight contract plan limits column)).getD 0
  else 0

def rowBytes (batch : RecordBatch) (row : Nat) : Nat :=
  (plan.columns.map (cellBytes batch row)).sum

def rowComponents (batch : RecordBatch) (row : Nat) : Nat :=
  (plan.columns.map (cellComponents contract plan limits batch row)).sum

/-- The components of the rows before one. -/
def componentsBefore (batch : RecordBatch) (row : Nat) : Nat :=
  ((List.range row).map (rowComponents contract plan limits batch)).sum

/-! ## What is asked of the cells -/

/-- A text of the column is measured in a batch as in a row. -/
def isText (kind : SqlServerColumnKind) : Bool := kind = .utf8 || kind = .binary || kind.isSpatial

/-- What both inspections ask of a row. -/
structure SoundRow (batch : RecordBatch) (row : Nat) : Prop where
  keys : ∀ index ∈ plan.keyInputIndices, ∀ column, plan.columns[index]? = some column →
    batch.value column row ≠ none
  required : ∀ column ∈ plan.columns, column.nullable = false → batch.value column row ≠ none
  short : ∀ column ∈ plan.columns, isText column.kind = true →
    ∀ value, batch.value column row = some value → value.length ≤ limits.cell
  verified : ∀ column ∈ plan.columns, column.kind.isSpatial = true →
    ∀ value, batch.value column row = some value →
      (weight contract plan limits column value).isSome = true

/-- What both inspections ask of a batch. -/
structure Sound (batch : RecordBatch) : Prop where
  schema : batch.schema = plan.inputSchema
  rows : ∀ row < batch.numRows, SoundRow contract plan limits batch row

/-- The cells that only a row measures are within the limit. -/
structure WideRow (batch : RecordBatch) (row : Nat) : Prop where
  fixed : ∀ column ∈ plan.columns, ∀ width, column.kind.width = some width → width ≤ limits.cell
  offsets : ∀ column ∈ plan.columns, column.kind = .timestampTz →
    ∀ value, batch.value column row = some value → value.length ≤ limits.cell
  bytes : rowBytes plan batch row < 2 ^ 64

/-- Each value of a row is within what the rows before it leave. -/
structure ApartRow (batch : RecordBatch) (row : Nat) : Prop where
  each : ∀ column ∈ plan.columns, cellComponents contract plan limits batch row column ≤
    limits.components - componentsBefore contract plan limits batch row
  sum : rowComponents contract plan limits batch row < 2 ^ 64

/-- The memory of a batch is counted without overflow. -/
def Addressable (batch : RecordBatch) : Prop := batch.memory.sum < 2 ^ 64

/-! ## Agreement -/

def Limits.less (limits : Limits) (components : Nat) : Limits :=
  { limits with
    components := limits.components - components
    bounded := Nat.lt_of_le_of_lt (Nat.sub_le _ _) limits.bounded }

/-- The rows one after the other, each with the limit the ones before it leave. -/
def inspectRows (batch : RecordBatch) : List Nat → Limits → Result (List RowInspection)
  | [], _ => .ok []
  | row :: rows, limits => do
    let inspection ← inspectRow contract plan limits batch row
    let inspections ← inspectRows batch rows (limits.less inspection.geometryComponents)
    .ok (inspection :: inspections)

/-- The batch is accepted when its rows are, with the sum of their components. -/
structure Agree (batch : RecordBatch) : Prop where
  accepts : (∃ inspection, inspectBatch contract plan limits batch = .ok inspection) ↔
    ∃ inspections,
      inspectRows contract plan batch (List.range batch.numRows) limits = .ok inspections
  totals : ∀ inspection inspections, inspectBatch contract plan limits batch = .ok inspection →
    inspectRows contract plan batch (List.range batch.numRows) limits = .ok inspections →
    inspection.geometryComponents = (inspections.map RowInspection.geometryComponents).sum

/-- Where the inspections have the same to ask: a batch without rows has the schema of the plan,
the cells that only a row measures are within the limit, and the values of a row that are within
the rest are so together. -/
structure Uniform (batch : RecordBatch) : Prop where
  empty : batch.numRows = 0 → batch.schema = plan.inputSchema ∧ Addressable batch
  wide : Sound contract plan limits batch → Addressable batch →
    componentsBefore contract plan limits batch batch.numRows ≤ limits.components →
      ∀ row < batch.numRows, WideRow plan limits batch row
  together : 0 < batch.numRows → Sound contract plan limits batch →
    (∀ row < batch.numRows, WideRow plan limits batch row) →
    (∀ row < batch.numRows, ApartRow contract plan limits batch row) → Addressable batch ∧
      componentsBefore contract plan limits batch batch.numRows ≤ limits.components

/-! ## Verification -/

section Verification

variable {contract plan limits}

theorem verifyFieldValue_eq_ok {column : WriteColumnPlan} {value : Bytes} {maxComponents : Nat}
    (hmax : maxComponents < 2 ^ 64) {inspection : EwkbInspection} :
    verifyFieldValue contract plan limits column value maxComponents = .ok inspection ↔
      verifyFieldValue contract plan limits column value (2 ^ 64 - 1) = .ok inspection ∧
        inspection.stats.components ≤ maxComponents := by
  have hbytes : value.1.length < 2 ^ 64 := Nat.lt_trans value.2 (by decide)
  have hverify (declared : ValueContract) {n : Nat} (hn : n < 2 ^ 64) :=
    (WkbLanguage.verifyValue_iff declared value.1 hbytes n hn limits.depth .write).1 inspection
  unfold verifyFieldValue
  simp only [bind_eq_ok, okOr_eq_ok]
  constructor
  · rintro ⟨field, hfield, declared, hdeclared, h⟩
    obtain ⟨g, hvalue, hagrees, hcomponents, hlevels, rfl⟩ := (hverify declared hmax).1 h
    have hall : g.components ≤ 2 ^ 64 - 1 := by omega
    exact ⟨⟨field, hfield, declared, hdeclared, (hverify declared (by decide)).2
      ⟨g, hvalue, hagrees, hall, hlevels, rfl⟩⟩, hcomponents⟩
  · rintro ⟨⟨field, hfield, declared, hdeclared, h⟩, hcomponents⟩
    obtain ⟨g, hvalue, hagrees, -, hlevels, rfl⟩ := (hverify declared (by decide)).1 h
    exact ⟨field, hfield, declared, hdeclared, (hverify declared hmax).2
      ⟨g, hvalue, hagrees, hcomponents, hlevels, rfl⟩⟩

theorem weight_eq_some {column : WriteColumnPlan} {value : Bytes} {n : Nat} :
    weight contract plan limits column value = some n ↔ ∃ inspection,
      verifyFieldValue contract plan limits column value (2 ^ 64 - 1) = .ok inspection ∧
        inspection.stats.components = n := by
  unfold weight
  cases verifyFieldValue contract plan limits column value (2 ^ 64 - 1) with
  | error e => simp [Except.toOption]
  | ok inspection => simp [Except.toOption]

/-- A value verifies within a limit when its components are. -/
theorem decides_verifyFieldValue {column : WriteColumnPlan} {value : Bytes} {maxComponents : Nat}
    (hmax : maxComponents < 2 ^ 64) :
    Decides (verifyFieldValue contract plan limits column value maxComponents)
      (∃ n, weight contract plan limits column value = some n ∧ n ≤ maxComponents)
      fun inspection =>
        weight contract plan limits column value = some inspection.stats.components ∧
          inspection.stats.components ≤ maxComponents := by
  constructor
  · rintro ⟨n, hweight, hle⟩
    obtain ⟨inspection, hverify, rfl⟩ := weight_eq_some.1 hweight
    exact ⟨inspection, (verifyFieldValue_eq_ok hmax).2 ⟨hverify, hle⟩, hweight, hle⟩
  · intro hnone
    cases h : verifyFieldValue contract plan limits column value maxComponents with
    | error e => exact ⟨e, rfl⟩
    | ok inspection =>
      obtain ⟨hverify, hle⟩ := (verifyFieldValue_eq_ok hmax).1 h
      exact absurd ⟨_, weight_eq_some.2 ⟨inspection, hverify, rfl⟩, hle⟩ hnone

/-- A geometry is at least one component. -/
theorem weight_pos {column : WriteColumnPlan} {value : Bytes} {n : Nat}
    (h : weight contract plan limits column value = some n) : 0 < n := by
  obtain ⟨inspection, hverify, rfl⟩ := weight_eq_some.1 h
  unfold verifyFieldValue at hverify
  obtain ⟨field, -, h⟩ := bind_eq_ok.1 hverify
  obtain ⟨declared, -, h⟩ := bind_eq_ok.1 h
  obtain ⟨g, -, -, -, -, rfl⟩ := ((WkbLanguage.verifyValue_iff declared value.1
    (Nat.lt_trans value.2 (by decide)) _ (by decide) limits.depth .write).1 _).1 h
  obtain ⟨n, hn⟩ := WkbGrammar.Geometry.exists_components g
  show 0 < g.components
  omega

end Verification

/-! ## The columns of a batch -/

/-- The array of a column, of its type and with a cell for each row. -/
structure Held (batch : RecordBatch) (column : WriteColumnPlan) (array : ArrayData) : Prop where
  found : batch.columns[column.inputIndex]? = some array
  dataType : array.dataType = column.kind.arrowType
  length : array.cells.length = batch.numRows

section Arrays

variable {contract plan limits} {batch : RecordBatch}

theorem exists_held (hschema : batch.schema = plan.inputSchema) {column : WriteColumnPlan}
    (hcolumn : column ∈ plan.columns) : ∃ array, Held batch column array := by
  have htype := plan.typed column hcolumn
  rw [← hschema, ← List.getElem?_map, ← batch.typed, List.getElem?_map] at htype
  obtain ⟨array, harray, htype⟩ := Option.map_eq_some_iff.1 htype
  exact ⟨array, harray, htype, batch.lengths array (List.mem_of_getElem? harray)⟩

theorem Held.value {column : WriteColumnPlan} {array : ArrayData} (h : Held batch column array)
    (row : Nat) : batch.value column row = array.value row := by
  unfold RecordBatch.value
  rw [h.found]
  rfl

theorem Held.batchColumn {column : WriteColumnPlan} {array : ArrayData}
    (h : Held batch column array) : batch.column column.inputIndex = .ok array := by
  unfold RecordBatch.column
  rw [h.found, okOr_some]

/-- The cells of an array are the values of its rows. -/
theorem Held.cells {column : WriteColumnPlan} {array : ArrayData} (h : Held batch column array) :
    array.cells = (List.range batch.numRows).map (batch.value column) := by
  rw [← h.length]
  refine List.ext_getElem (by simp) fun row hrow _ => ?_
  rw [List.getElem_map, List.getElem_range, h.value]
  unfold ArrayData.value
  rw [List.getElem?_eq_getElem hrow]
  rfl

theorem Held.isNull {column : WriteColumnPlan} {array : ArrayData} (h : Held batch column array)
    {row : Nat} (hrow : row < batch.numRows) :
    array.isNull row = true ↔ batch.value column row = none := by
  rw [← h.length] at hrow
  rw [h.value]
  unfold ArrayData.isNull ArrayData.value
  rw [List.getElem?_eq_getElem hrow, decide_eq_true_eq, Option.some_inj]
  exact Iff.rfl

theorem Held.nullCount {column : WriteColumnPlan} {array : ArrayData} (h : Held batch column array) :
    0 < array.nullCount ↔ ∃ row < batch.numRows, batch.value column row = none := by
  unfold ArrayData.nullCount
  rw [List.countP_pos_iff, h.cells]
  simp only [List.mem_map, List.mem_range, Option.isNone_iff_eq_none]
  constructor
  · rintro ⟨_, ⟨row, hrow, rfl⟩, hnone⟩
    exact ⟨row, hrow, hnone⟩
  · rintro ⟨row, hrow, hnone⟩
    exact ⟨_, ⟨row, hrow, rfl⟩, hnone⟩

theorem decides_same {α : Type} (a : α) :
    Decides (.ok a : Result α) True fun b => b = a :=
  ⟨fun _ => ⟨a, rfl, rfl⟩, fun h => absurd trivial h⟩

/-- Where a step goes on, its condition holds. -/
theorem decides_and {α : Type} {x : Result α} {c : Prop} {P : α → Prop} (h : Decides x c P) :
    Decides x c fun a => P a ∧ c := by
  refine ⟨fun hc => ?_, h.error⟩
  obtain ⟨a, ha, hp⟩ := h.ok hc
  exact ⟨a, ha, hp, hc⟩

theorem decides_downcast {array : ArrayData} {dataType : DataType} (h : array.dataType = dataType) :
    Decides (downcast array dataType) True fun cells => cells = array.cells := by
  unfold downcast
  rw [if_pos h]
  exact decides_ok rfl

theorem decides_enforceCell {length limit : Nat} :
    Decides (enforceCell length limit) (length ≤ limit) fun _ => True :=
  decides_failIf.congr Nat.not_lt.symm

theorem decides_okOr_add {a b : Nat} {e : DatabaseError} :
    Decides (okOr (checkedAdd 64 a b) e) (a + b < 2 ^ 64) fun n => n = a + b := by
  unfold checkedAdd
  split
  next h => exact ⟨fun _ => ⟨a + b, rfl, rfl⟩, fun hlt => absurd h hlt⟩
  next h => exact ⟨fun hlt => absurd hlt h, fun _ => ⟨e, rfl⟩⟩

/-- The keys have no NULL in the rows asked about. -/
theorem decides_inspectKeys (hschema : batch.schema = plan.inputSchema)
    {isNull : ArrayData → Bool} {P : WriteColumnPlan → Prop}
    (hnull : ∀ column array, Held batch column array → (isNull array = true ↔ ¬ P column))
    {indices : List Nat} (hindices : ∀ index ∈ indices, index < plan.columns.length) :
    Decides (inspectKeys plan isNull batch indices)
      (∀ index ∈ indices, ∀ column, plan.columns[index]? = some column → P column)
      fun _ => True := by
  induction indices with
  | nil => exact (decides_ok trivial).congr (by simp)
  | cons index indices ih =>
    obtain ⟨column, hget⟩ : ∃ column, plan.columns[index]? = some column :=
      ⟨_, List.getElem?_eq_getElem (hindices index (by simp))⟩
    obtain ⟨array, hheld⟩ := exists_held hschema (List.mem_of_getElem? hget)
    have hkey : keyColumn plan index = .ok column := by
      unfold keyColumn
      rw [hget, okOr_some]
    rw [inspectKeys, hkey, ok_bind, hheld.batchColumn, ok_bind]
    refine (decides_failIf.bind fun _ _ => ih fun i hi => hindices i (by simp [hi])).congr ?_
    rw [List.forall_mem_cons, hget, hnull column array hheld, not_not]
    simp

theorem decides_enforceCells {cells : List (Option Bytes)} :
    Decides (enforceCells limits cells)
      (∀ value, some value ∈ cells → value.length ≤ limits.cell) fun _ => True := by
  induction cells with
  | nil => exact (decides_ok trivial).congr (by simp)
  | cons cell cells ih =>
    cases cell with
    | none => exact ih.congr (by simp)
    | some value =>
      refine (decides_enforceCell.bind fun _ _ => ih).congr ?_
      simp

/-- The components of the cells of a geometry column. -/
def totalComponents (contract : Field → Result ValueContract) (plan : WritePlan) (limits : Limits)
    (column : WriteColumnPlan) (cells : List (Option Bytes)) : Nat :=
  (cells.map fun cell => (cell.bind (weight contract plan limits column)).getD 0).sum

/-- The values of a geometry column are within the limit one after the other when they are so
together. -/
theorem decides_inspectGeometries {column : WriteColumnPlan} {cells : List (Option Bytes)}
    {total : Nat} (htotal : total ≤ limits.components) :
    Decides (inspectGeometries contract plan limits column cells total)
      ((∀ value, some value ∈ cells → value.length ≤ limits.cell ∧
        (weight contract plan limits column value).isSome = true) ∧
        total + totalComponents contract plan limits column cells ≤ limits.components)
      fun n => n = total + totalComponents contract plan limits column cells := by
  have hbounded := limits.bounded
  induction cells generalizing total with
  | nil =>
    exact ⟨fun _ => ⟨total, rfl, rfl⟩, fun h => absurd ⟨by simp, htotal⟩ h⟩
  | cons cell cells ih =>
    cases cell with
    | none => simpa [totalComponents, inspectGeometries] using ih htotal
    | some value =>
      have hsum : totalComponents contract plan limits column (some value :: cells) =
          (weight contract plan limits column value).getD 0 +
            totalComponents contract plan limits column cells := rfl
      rw [inspectGeometries, hsum]
      generalize hw : (weight contract plan limits column value).getD 0 = w
      have htail : ∀ inspection : EwkbInspection, (weight contract plan limits column value =
          some inspection.stats.components ∧
            inspection.stats.components ≤ limits.components - total) →
          Decides (do
            let n ← okOr (checkedAdd 64 total inspection.stats.components)
              (.resourceLimit "componenti geometriche overflow")
            inspectGeometries contract plan limits column cells n)
          (total + w < 2 ^ 64 ∧ (∀ value, some value ∈ cells → value.length ≤ limits.cell ∧
            (weight contract plan limits column value).isSome = true) ∧
            total + w + totalComponents contract plan limits column cells ≤ limits.components)
          fun n => n = total + w + totalComponents contract plan limits column cells := by
        rintro inspection ⟨hweight, hle⟩
        rw [hweight, Option.getD_some] at hw
        rw [hw] at hle ⊢
        exact decides_okOr_add.bind fun n hn => hn ▸ ih (by omega)
      refine ((decides_enforceCell.bind fun _ _ => decides_failIf.bind fun _ _ =>
        decides_failIf.bind fun _ _ =>
          (decides_verifyFieldValue (by omega)).bind htail).congr ?_).imp ?_
      · simp only [List.mem_cons, Option.some.injEq, forall_eq_or_imp]
        constructor
        · rintro ⟨⟨⟨hcell, hsome⟩, hrest⟩, hle⟩
          obtain ⟨n, hweight⟩ := Option.isSome_iff_exists.1 hsome
          have hpos := weight_pos hweight
          rw [hweight, Option.getD_some] at hw
          exact ⟨hcell, by omega, by omega, ⟨n, hweight, by omega⟩, by omega, hrest, by omega⟩
        · rintro ⟨hcell, -, -, ⟨n, hweight, -⟩, -, hrest, hle⟩
          exact ⟨⟨⟨hcell, by rw [hweight]; rfl⟩, hrest⟩, by omega⟩
      · intro n hn
        rw [hn, Nat.add_assoc]

/-! ## A column -/

/-- What a batch asks of a column, the components aside. -/
structure SoundColumn (contract : Field → Result ValueContract) (plan : WritePlan)
    (limits : Limits) (batch : RecordBatch) (column : WriteColumnPlan) : Prop where
  required : column.nullable = false →
    ∀ row < batch.numRows, batch.value column row ≠ none
  short : isText column.kind = true → ∀ row < batch.numRows,
    ∀ value, batch.value column row = some value → value.length ≤ limits.cell
  verified : column.kind.isSpatial = true → ∀ row < batch.numRows,
    ∀ value, batch.value column row = some value →
      (weight contract plan limits column value).isSome = true

/-- The components of a column. -/
def columnComponents (contract : Field → Result ValueContract) (plan : WritePlan)
    (limits : Limits) (batch : RecordBatch) (column : WriteColumnPlan) : Nat :=
  ((List.range batch.numRows).map fun row =>
    cellComponents contract plan limits batch row column).sum

theorem Held.forall_cells {column : WriteColumnPlan} {array : ArrayData}
    (h : Held batch column array) {P : Bytes → Prop} :
    (∀ value, some value ∈ array.cells → P value) ↔
      ∀ row < batch.numRows, ∀ value, batch.value column row = some value → P value := by
  rw [h.cells]
  simp only [List.mem_map, List.mem_range]
  constructor
  · intro hall row hrow value hvalue
    exact hall value ⟨row, hrow, hvalue⟩
  · rintro hall value ⟨row, hrow, hvalue⟩
    exact hall row hrow value hvalue

theorem Held.totalComponents {column : WriteColumnPlan} {array : ArrayData}
    (h : Held batch column array) (hspatial : column.kind.isSpatial = true) :
    totalComponents contract plan limits column array.cells =
      columnComponents contract plan limits batch column := by
  unfold Inspection.totalComponents columnComponents cellComponents
  rw [h.cells, List.map_map]
  simp only [hspatial, if_true]
  rfl

theorem columnComponents_eq_zero {column : WriteColumnPlan}
    (h : column.kind.isSpatial = false) :
    columnComponents contract plan limits batch column = 0 := by
  unfold columnComponents cellComponents
  simp [h]

theorem isSpatial_iff {kind : SqlServerColumnKind} :
    kind.isSpatial = true ↔ kind = .geometry ∨ kind = .geography := by
  unfold SqlServerColumnKind.isSpatial
  simp

theorem isText_iff {kind : SqlServerColumnKind} :
    isText kind = true ↔ kind = .utf8 ∨ kind = .binary ∨ kind.isSpatial = true := by
  unfold isText
  simp [or_assoc]

theorem isText_of_isSpatial {kind : SqlServerColumnKind} (h : kind.isSpatial = true) :
    isText kind = true := by
  unfold isText
  rw [h, Bool.or_true]

/-- A kind is one of a text, of a geometry, or is not looked at in a batch. -/
theorem decides_inspectColumn {column : WriteColumnPlan} {array : ArrayData}
    (h : Held batch column array) {total : Nat} (htotal : total ≤ limits.components) :
    Decides (inspectColumn contract plan limits array column total)
      (((isText column.kind = true → ∀ row < batch.numRows,
        ∀ value, batch.value column row = some value → value.length ≤ limits.cell) ∧
        (column.kind.isSpatial = true → ∀ row < batch.numRows,
          ∀ value, batch.value column row = some value →
            (weight contract plan limits column value).isSome = true)) ∧
        total + columnComponents contract plan limits batch column ≤ limits.components)
      fun n => n = total + columnComponents contract plan limits batch column := by
  have htype := h.dataType
  by_cases hspatial : column.kind.isSpatial = true
  · have hinspect : inspectColumn contract plan limits array column total =
        downcast array column.kind.arrowType >>= fun binary =>
          inspectGeometries contract plan limits column binary total := by
      unfold inspectColumn
      rcases isSpatial_iff.1 hspatial with hkind | hkind <;> rw [hkind] <;> rfl
    rw [hinspect, ← h.totalComponents hspatial]
    refine (decides_downcast htype).andThen fun cells hcells => ?_
    rw [hcells]
    refine (decides_inspectGeometries htotal).congr (and_congr_left fun _ => ?_)
    rw [h.forall_cells]
    simp only [hspatial, isText_of_isSpatial hspatial, true_implies, ← forall_and]
  · have hzero := @columnComponents_eq_zero contract plan limits batch column
      (Bool.not_eq_true _ ▸ hspatial)
    rw [hzero, Nat.add_zero]
    by_cases htext : isText column.kind = true
    · have hinspect : inspectColumn contract plan limits array column total =
          downcast array column.kind.arrowType >>= fun cells =>
            enforceCells limits cells >>= fun _ => .ok total := by
        unfold inspectColumn
        rcases isText_iff.1 htext with hkind | hkind | hkind
        · rw [hkind]
          rfl
        · rw [hkind]
          rfl
        · exact absurd hkind hspatial
      rw [hinspect]
      refine (decides_downcast htype).andThen fun cells hcells => ?_
      rw [hcells]
      refine Decides.congr (decides_enforceCells.bind fun _ _ => decides_same total) ?_
      rw [h.forall_cells]
      simp [htext, hspatial, htotal]
    · have hinspect : inspectColumn contract plan limits array column total = .ok total := by
        unfold inspectColumn
        split
        next hkind => exact absurd (isText_iff.2 (.inl hkind)) htext
        next hkind => exact absurd (isText_iff.2 (.inr (.inl hkind))) htext
        next hkind => exact absurd (isSpatial_iff.2 (.inl hkind)) hspatial
        next hkind => exact absurd (isSpatial_iff.2 (.inr hkind)) hspatial
        next => rfl
      rw [hinspect]
      refine (decides_same total).congr ?_
      simp [htext, hspatial, htotal]

/-- The columns are within the limit one after the other when they are so together. -/
theorem decides_inspectColumns (hschema : batch.schema = plan.inputSchema)
    {columns : List WriteColumnPlan} (hcolumns : ∀ column ∈ columns, column ∈ plan.columns)
    {total : Nat} (htotal : total ≤ limits.components) :
    Decides (inspectColumns contract plan limits batch columns total)
      ((∀ column ∈ columns, SoundColumn contract plan limits batch column) ∧
        total + (columns.map (columnComponents contract plan limits batch)).sum ≤
          limits.components)
      fun n => n = total + (columns.map (columnComponents contract plan limits batch)).sum := by
  induction columns generalizing total with
  | nil => exact ⟨fun _ => ⟨total, rfl, rfl⟩, fun h => absurd ⟨by simp, htotal⟩ h⟩
  | cons column columns ih =>
    obtain ⟨array, hheld⟩ := exists_held hschema (hcolumns column (by simp))
    rw [inspectColumns, hheld.batchColumn, ok_bind, List.map_cons, List.sum_cons]
    have hcolumn := (decides_and (decides_inspectColumn hheld htotal)).imp
      (Q := fun n => n = total + columnComponents contract plan limits batch column ∧
        n ≤ limits.components) fun n hn => ⟨hn.1, hn.1 ▸ hn.2.2⟩
    generalize columnComponents contract plan limits batch column = components at hcolumn ⊢
    have hrest : ∀ n, (n = total + components ∧ n ≤ limits.components) →
        Decides (inspectColumns contract plan limits batch columns n)
          ((∀ column ∈ columns, SoundColumn contract plan limits batch column) ∧
            total + components + (columns.map (columnComponents contract plan limits batch)).sum ≤
              limits.components)
          fun m => m = total + components +
            (columns.map (columnComponents contract plan limits batch)).sum := by
      rintro n ⟨rfl, hle⟩
      exact ih (fun c hc => hcolumns c (by simp [hc])) hle
    refine ((decides_failIf.bind fun _ _ => hcolumn.bind hrest).congr ?_).imp ?_
    · rw [List.forall_mem_cons]
      have hrequired : ¬ (¬ column.nullable = true ∧ array.nullCount > 0) ↔
          (column.nullable = false → ∀ row < batch.numRows, batch.value column row ≠ none) := by
        rw [gt_iff_lt, hheld.nullCount]
        simp
      rw [hrequired]
      constructor
      · rintro ⟨⟨hcolumn, hrest⟩, hle⟩
        exact ⟨hcolumn.required, ⟨⟨hcolumn.short, hcolumn.verified⟩, by omega⟩, hrest, by omega⟩
      · rintro ⟨hreq, ⟨⟨hshort, hverified⟩, -⟩, hrest, hle⟩
        exact ⟨⟨⟨hreq, hshort, hverified⟩, hrest⟩, by omega⟩
    · intro n hn
      rw [hn, Nat.add_assoc]

/-! ## A batch -/

theorem decides_batchBytes {sizes : List Nat} {total : Nat} (htotal : total < 2 ^ 64) :
    Decides (batchBytes sizes total) (total + sizes.sum < 2 ^ 64)
      fun bytes => bytes = total + sizes.sum := by
  induction sizes generalizing total with
  | nil => exact ⟨fun _ => ⟨total, rfl, rfl⟩, fun h => absurd htotal h⟩
  | cons bytes sizes ih =>
    have hrest : ∀ n, (n = total + bytes ∧ total + bytes < 2 ^ 64) →
        Decides (batchBytes sizes n) (total + bytes + sizes.sum < 2 ^ 64)
          fun b => b = total + bytes + sizes.sum := by
      rintro n ⟨rfl, hlt⟩
      exact ih hlt
    rw [batchBytes, List.sum_cons]
    refine (((decides_and decides_okOr_add).bind hrest).congr ?_).imp ?_
    · omega
    · intro n hn
      rw [hn, Nat.add_assoc]

/-- The components of the columns are those of the rows. -/
theorem sum_columnComponents :
    (plan.columns.map (columnComponents contract plan limits batch)).sum =
      componentsBefore contract plan limits batch batch.numRows := by
  unfold columnComponents componentsBefore rowComponents
  generalize batch.numRows = n
  induction n with
  | zero => simp
  | succ n ih =>
    simp only [List.range_succ, List.map_append, List.sum_append, List.map_cons, List.map_nil,
      List.sum_cons, List.sum_nil, Nat.add_zero]
    rw [← ih, ← List.sum_map_add]

/-- The conditions on the columns and on the keys are those on the rows. -/
theorem sound_iff (hschema : batch.schema = plan.inputSchema) :
    Sound contract plan limits batch ↔
      (∀ index ∈ plan.keyInputIndices, ∀ column, plan.columns[index]? = some column →
        ∀ row < batch.numRows, batch.value column row ≠ none) ∧
      ∀ column ∈ plan.columns, SoundColumn contract plan limits batch column := by
  constructor
  · intro h
    refine ⟨fun index hindex column hcolumn row hrow =>
      (h.rows row hrow).keys index hindex column hcolumn, fun column hcolumn => ⟨?_, ?_, ?_⟩⟩
    · exact fun hnullable row hrow => (h.rows row hrow).required column hcolumn hnullable
    · exact fun htext row hrow => (h.rows row hrow).short column hcolumn htext
    · exact fun hspatial row hrow => (h.rows row hrow).verified column hcolumn hspatial
  · rintro ⟨hkeys, hcolumns⟩
    refine ⟨hschema, fun row hrow => ⟨?_, ?_, ?_, ?_⟩⟩
    · exact fun index hindex column hcolumn => hkeys index hindex column hcolumn row hrow
    · exact fun column hcolumn hnullable => (hcolumns column hcolumn).required hnullable row hrow
    · exact fun column hcolumn htext => (hcolumns column hcolumn).short htext row hrow
    · exact fun column hcolumn hspatial => (hcolumns column hcolumn).verified hspatial row hrow

/-- **A batch is accepted when its cells are sound and its components within the limit.** -/
theorem decides_inspectBatch :
    Decides (inspectBatch contract plan limits batch)
      (Sound contract plan limits batch ∧ Addressable batch ∧
        componentsBefore contract plan limits batch batch.numRows ≤ limits.components)
      fun inspection => inspection.geometryComponents =
        componentsBefore contract plan limits batch batch.numRows := by
  unfold inspectBatch
  by_cases hschema : batch.schema = plan.inputSchema
  · have hkeys := @decides_inspectKeys plan batch hschema (fun array => decide (array.nullCount > 0))
      (fun column => ∀ row < batch.numRows, batch.value column row ≠ none)
      (fun column array h => by simp [gt_iff_lt, h.nullCount]) _ plan.keys
    have hcolumns := @decides_inspectColumns contract plan limits batch hschema plan.columns
      (fun _ h => h) 0 (Nat.zero_le limits.components)
    rw [failIf_neg (not_not.2 hschema), ok_bind, sound_iff hschema]
    rw [sum_columnComponents] at hcolumns
    refine ((decides_batchBytes (by decide)).bind fun bytes _ => hkeys.bind fun _ _ =>
      hcolumns.bind fun components hcomponents => decides_ok ?_).congr ?_
    · rw [hcomponents, Nat.zero_add]
    · unfold Addressable
      rw [Nat.zero_add, Nat.zero_add]
      tauto
  · refine ⟨fun h => absurd h.1.schema hschema, fun _ => ?_⟩
    unfold failIf
    rw [if_pos hschema]
    exact ⟨_, rfl⟩

end Arrays

/-! ## A row -/

section Rows

variable {contract plan limits} {batch : RecordBatch} {row : Nat}

theorem cellLength_of_width {column : WriteColumnPlan} {width : Nat}
    (h : column.kind.width = some width) : cellLength batch row column = some width := by
  unfold cellLength
  rw [h]

theorem cellLength_of_text {column : WriteColumnPlan} (h : column.kind.width = none) :
    cellLength batch row column = (batch.value column row).map Bytes.length := by
  unfold cellLength
  rw [h]

theorem decides_measure {bytes : Nat} (hbytes : bytes < 2 ^ 64) {length : Option Nat} :
    Decides (measure limits bytes length)
      ((∀ n, length = some n → n ≤ limits.cell) ∧ bytes + length.getD 0 < 2 ^ 64)
      fun n => n = bytes + length.getD 0 := by
  cases length with
  | none => exact (decides_same bytes).congr (by simpa using hbytes)
  | some n =>
    refine (decides_enforceCell.bind fun _ _ => decides_okOr_add).congr ?_
    simp

/-- A cell is measured by its kind. -/
theorem decides_inspectCell {column : WriteColumnPlan} {array : ArrayData}
    (h : Held batch column array) {components : Nat} (hcomponents : components < 2 ^ 64) :
    Decides (inspectCell contract plan limits array row column components)
      ((column.kind.isSpatial = true → ∀ value, batch.value column row = some value →
        value.length ≤ limits.cell ∧ ∃ n, weight contract plan limits column value = some n ∧
          n ≤ limits.components) ∧
        components + cellComponents contract plan limits batch row column < 2 ^ 64)
      fun r => r = (cellLength batch row column,
        components + cellComponents contract plan limits batch row column) := by
  have htype := h.dataType
  by_cases hspatial : column.kind.isSpatial = true
  · have hinspect : inspectCell contract plan limits array row column components =
        downcast array column.kind.arrowType >>= fun _ =>
          inspectGeometry contract plan limits column components (array.value row) := by
      unfold inspectCell
      rcases isSpatial_iff.1 hspatial with hkind | hkind <;> rw [hkind] <;> rfl
    have hwidth : column.kind.width = none := by
      rcases isSpatial_iff.1 hspatial with hkind | hkind <;> rw [hkind] <;> rfl
    have hcell : cellComponents contract plan limits batch row column =
        ((batch.value column row).bind (weight contract plan limits column)).getD 0 :=
      if_pos hspatial
    rw [hinspect, hcell, cellLength_of_text hwidth, h.value]
    refine (decides_downcast htype).andThen fun _ _ => ?_
    cases array.value row with
    | none =>
      refine (decides_same (none, components)).congr ?_
      simpa using hcomponents
    | some value =>
      rw [inspectGeometry]
      have hend : ∀ inspection : EwkbInspection, (weight contract plan limits column value =
          some inspection.stats.components ∧
            inspection.stats.components ≤ limits.components) →
          Decides (do
            let components ← okOr (checkedAdd 64 components inspection.stats.components)
              (DatabaseError.resourceLimit "componenti geometriche overflow")
            .ok (some value.length, components))
          (components + (weight contract plan limits column value).getD 0 < 2 ^ 64)
          fun r => r = (some value.length,
            components + (weight contract plan limits column value).getD 0) := by
        rintro inspection ⟨hweight, -⟩
        rw [hweight, Option.getD_some]
        refine (decides_okOr_add.bind fun n hn => (hn ▸ decides_same _ :
          Decides (.ok (some value.length, n)) True _)).congr ?_
        rw [and_true]
      refine (decides_enforceCell.bind fun _ _ =>
        (decides_verifyFieldValue limits.bounded).bind hend).congr ?_
      simp [hspatial, and_assoc]
  · have hzero : cellComponents contract plan limits batch row column = 0 := if_neg hspatial
    rw [hzero, Nat.add_zero]
    have hcond : ((column.kind.isSpatial = true → ∀ value, batch.value column row = some value →
        value.length ≤ limits.cell ∧ ∃ n, weight contract plan limits column value = some n ∧
          n ≤ limits.components) ∧ components < 2 ^ 64) ↔ True :=
      iff_true_intro ⟨fun hs => absurd hs hspatial, hcomponents⟩
    refine Decides.congr ?_ hcond
    cases hwidth : column.kind.width with
    | some width =>
      rw [cellLength_of_width hwidth]
      have hinspect : inspectCell contract plan limits array row column components =
          .ok (some width, components) := by
        unfold inspectCell
        cases hkind : column.kind <;> rw [hkind] at hwidth <;> cases hwidth <;> rfl
      rw [hinspect]
      exact decides_same _
    | none =>
      rw [cellLength_of_text hwidth, h.value]
      have hinspect : inspectCell contract plan limits array row column components =
          downcast array column.kind.arrowType >>= fun _ =>
            .ok ((array.value row).map Bytes.length, components) := by
        unfold inspectCell
        cases hkind : column.kind <;> rw [hkind] at hwidth hspatial <;>
          first | rfl | exact absurd rfl hspatial | cases hwidth
      rw [hinspect]
      exact (decides_downcast htype).andThen fun _ _ => decides_same _

theorem cellComponents_of_value {column : WriteColumnPlan} (hspatial : column.kind.isSpatial = true)
    {value : Bytes} (hvalue : batch.value column row = some value) {n : Nat}
    (hweight : weight contract plan limits column value = some n) :
    cellComponents contract plan limits batch row column = n := by
  rw [cellComponents, if_pos hspatial, hvalue, Option.bind_some, hweight, Option.getD_some]

theorem isText_or_offset {kind : SqlServerColumnKind} (h : kind.width = none) :
    isText kind = true ∨ kind = .timestampTz := by
  cases kind <;> first | exact .inl rfl | exact .inr rfl | cases h

theorem width_of_isText {kind : SqlServerColumnKind} (h : isText kind = true) :
    kind.width = none := by
  cases kind <;> first | rfl | cases h

/-- What a row asks of a cell. -/
structure RowCell (contract : Field → Result ValueContract) (plan : WritePlan) (limits : Limits)
    (batch : RecordBatch) (row : Nat) (column : WriteColumnPlan) : Prop where
  required : column.nullable = false → batch.value column row ≠ none
  geometry : column.kind.isSpatial = true → ∀ value, batch.value column row = some value →
    value.length ≤ limits.cell ∧ ∃ n, weight contract plan limits column value = some n ∧
      n ≤ limits.components
  measured : ∀ n, cellLength batch row column = some n → n ≤ limits.cell

theorem decides_inspectCells (hschema : batch.schema = plan.inputSchema) (hrow : row < batch.numRows)
    {columns : List WriteColumnPlan} (hcolumns : ∀ column ∈ columns, column ∈ plan.columns)
    {bytes components : Nat} (hbytes : bytes < 2 ^ 64) (hcomponents : components < 2 ^ 64) :
    Decides (inspectCells contract plan limits batch row columns ⟨bytes, components⟩)
      ((∀ column ∈ columns, RowCell contract plan limits batch row column) ∧
        bytes + (columns.map (cellBytes batch row)).sum < 2 ^ 64 ∧
        components + (columns.map (cellComponents contract plan limits batch row)).sum < 2 ^ 64)
      fun inspection => inspection = ⟨bytes + (columns.map (cellBytes batch row)).sum,
        components + (columns.map (cellComponents contract plan limits batch row)).sum⟩ := by
  induction columns generalizing bytes components with
  | nil =>
    refine (decides_same _).congr ?_
    simpa using ⟨hbytes, hcomponents⟩
  | cons column columns ih =>
    obtain ⟨array, hheld⟩ := exists_held hschema (hcolumns column (by simp))
    have hcell := (decides_and (@decides_inspectCell contract plan limits batch row column array
      hheld components hcomponents)).imp
      (Q := fun r => r = (cellLength batch row column,
        components + cellComponents contract plan limits batch row column) ∧
        components + cellComponents contract plan limits batch row column < 2 ^ 64)
      fun r hr => ⟨hr.1, hr.2.2⟩
    have hmeasure := (decides_and (@decides_measure limits bytes hbytes
      (cellLength batch row column))).imp
      (Q := fun n => n = bytes + cellBytes batch row column ∧
        bytes + cellBytes batch row column < 2 ^ 64) fun n hn => ⟨hn.1, hn.2.2⟩
    rw [inspectCells, hheld.batchColumn, ok_bind, List.map_cons, List.map_cons, List.sum_cons,
      List.sum_cons]
    generalize hlength : cellBytes batch row column = length at hmeasure ⊢
    generalize cellComponents contract plan limits batch row column = count at hcell ⊢
    have hrest : ∀ n, (n = bytes + length ∧ bytes + length < 2 ^ 64) →
        components + count < 2 ^ 64 →
        Decides (inspectCells contract plan limits batch row columns ⟨n, components + count⟩)
          ((∀ column ∈ columns, RowCell contract plan limits batch row column) ∧
            bytes + length + (columns.map (cellBytes batch row)).sum < 2 ^ 64 ∧
            components + count +
              (columns.map (cellComponents contract plan limits batch row)).sum < 2 ^ 64)
          fun inspection => inspection = ⟨bytes + length + (columns.map (cellBytes batch row)).sum,
            components + count +
              (columns.map (cellComponents contract plan limits batch row)).sum⟩ := by
      rintro n ⟨rfl, hlt⟩ hcount
      exact ih (fun c hc => hcolumns c (by simp [hc])) hlt hcount
    refine ((decides_failIf.bind fun _ _ => hcell.bind fun r hr => by
      obtain ⟨rfl, hcount⟩ := hr
      exact hmeasure.bind fun n hn => hrest n hn hcount).congr ?_).imp ?_
    · rw [List.forall_mem_cons]
      have hrequired : ¬ (¬ column.nullable = true ∧ array.isNull row = true) ↔
          (column.nullable = false → batch.value column row ≠ none) := by
        rw [hheld.isNull hrow]
        simp
      rw [hrequired]
      constructor
      · rintro ⟨⟨hc, hall⟩, hb, hg⟩
        have hcell : bytes + cellBytes batch row column < 2 ^ 64 := by omega
        exact ⟨hc.required, ⟨hc.geometry, by omega⟩, ⟨hc.measured, hcell⟩, hall, by omega, by omega⟩
      · rintro ⟨hreq, ⟨hgeo, -⟩, ⟨hmeasured, -⟩, hall, hb, hg⟩
        exact ⟨⟨⟨hreq, hgeo, hmeasured⟩, hall⟩, by omega, by omega⟩
    · intro n hn
      rw [hn, Nat.add_assoc, Nat.add_assoc]

/-- **A row is accepted when its cells are sound, those only a row measures are within the limit,
and each value is within the rest of the components.** -/
theorem decides_inspectRow {before : Nat} :
    Decides (inspectRow contract plan (limits.less before) batch row)
      (batch.schema = plan.inputSchema ∧ row < batch.numRows ∧
        SoundRow contract plan limits batch row ∧ WideRow plan limits batch row ∧
        (∀ column ∈ plan.columns, cellComponents contract plan limits batch row column ≤
          limits.components - before) ∧ rowComponents contract plan limits batch row < 2 ^ 64)
      fun inspection => inspection.geometryComponents =
        rowComponents contract plan limits batch row := by
  unfold inspectRow
  by_cases hstart : batch.schema ≠ plan.inputSchema ∨ row ≥ batch.numRows
  · refine ⟨fun h => absurd hstart ?_, fun _ => ?_⟩
    · rintro (hschema | hrow)
      · exact hschema h.1
      · omega
    · unfold failIf
      rw [if_pos hstart]
      exact ⟨_, rfl⟩
  · obtain ⟨hschema, hrow⟩ := not_or.1 hstart
    rw [not_not] at hschema
    rw [Nat.not_le] at hrow
    have hkeys := @decides_inspectKeys plan batch hschema (fun array => array.isNull row)
      (fun column => batch.value column row ≠ none)
      (fun column array h => by rw [h.isNull hrow, not_not]) _ plan.keys
    have hcells := @decides_inspectCells contract plan (limits.less before) batch row hschema hrow
      plan.columns (fun _ h => h) 0 0 (Nat.two_pow_pos 64) (Nat.two_pow_pos 64)
    rw [failIf_neg hstart, ok_bind]
    refine ((hkeys.bind fun _ _ => hcells).congr ?_).imp ?_
    · rw [Nat.zero_add, Nat.zero_add]
      constructor
      · rintro ⟨-, -, hsound, hwide, heach, hsum⟩
        refine ⟨hsound.keys, fun column hcolumn => ⟨hsound.required column hcolumn, ?_, ?_⟩,
          hwide.bytes, hsum⟩
        · intro hspatial value hvalue
          obtain ⟨n, hweight⟩ :=
            Option.isSome_iff_exists.1 (hsound.verified column hcolumn hspatial value hvalue)
          refine ⟨hsound.short column hcolumn (isText_of_isSpatial hspatial) value hvalue, n,
            hweight, ?_⟩
          rw [← cellComponents_of_value hspatial hvalue hweight]
          exact heach column hcolumn
        · intro n hn
          cases hwidth : column.kind.width with
          | some width =>
            rw [cellLength_of_width hwidth] at hn
            exact Option.some.inj hn ▸ hwide.fixed column hcolumn width hwidth
          | none =>
            rw [cellLength_of_text hwidth] at hn
            obtain ⟨value, hvalue, rfl⟩ := Option.map_eq_some_iff.1 hn
            rcases isText_or_offset hwidth with htext | hoffset
            · exact hsound.short column hcolumn htext value hvalue
            · exact hwide.offsets column hcolumn hoffset value hvalue
      · rintro ⟨hk, hall, hbytes, hsum⟩
        have hlength : ∀ column ∈ plan.columns, column.kind.width = none →
            ∀ value, batch.value column row = some value → value.length ≤ limits.cell := by
          intro column hcolumn hwidth value hvalue
          refine (hall column hcolumn).measured _ ?_
          rw [cellLength_of_text hwidth, hvalue]
          rfl
        refine ⟨hschema, hrow, ⟨hk, fun column hcolumn => (hall column hcolumn).required, ?_, ?_⟩,
          ⟨?_, ?_, hbytes⟩, ?_, hsum⟩
        · exact fun column hcolumn htext => hlength column hcolumn (width_of_isText htext)
        · intro column hcolumn hspatial value hvalue
          obtain ⟨-, n, hweight, -⟩ := (hall column hcolumn).geometry hspatial value hvalue
          exact Option.isSome_iff_exists.2 ⟨n, hweight⟩
        · exact fun column hcolumn width hwidth =>
            (hall column hcolumn).measured width (cellLength_of_width hwidth)
        · exact fun column hcolumn hoffset => hlength column hcolumn (by rw [hoffset]; rfl)
        · intro column hcolumn
          by_cases hspatial : column.kind.isSpatial = true
          · cases hvalue : batch.value column row with
            | none =>
              rw [cellComponents, if_pos hspatial, hvalue]
              exact Nat.zero_le _
            | some value =>
              obtain ⟨-, n, hweight, hle⟩ := (hall column hcolumn).geometry hspatial value hvalue
              exact (@cellComponents_of_value contract plan limits batch row column hspatial value
                hvalue n hweight).trans_le hle
          · rw [cellComponents, if_neg hspatial]
            exact Nat.zero_le _
    · intro inspection hinspection
      rw [hinspection]
      exact Nat.zero_add _

/-- What is asked of a row after the ones before it. -/
structure AcceptedRow (contract : Field → Result ValueContract) (plan : WritePlan)
    (limits : Limits) (batch : RecordBatch) (row : Nat) : Prop where
  sound : SoundRow contract plan limits batch row
  wide : WideRow plan limits batch row
  apart : ApartRow contract plan limits batch row

theorem componentsBefore_succ (row : Nat) : componentsBefore contract plan limits batch (row + 1) =
    componentsBefore contract plan limits batch row +
      rowComponents contract plan limits batch row := by
  unfold componentsBefore
  rw [List.range_succ, List.map_append, List.sum_append, List.map_singleton, List.sum_singleton]

theorem less_less (a b : Nat) : (limits.less a).less b = limits.less (a + b) := by
  simp [Limits.less, Nat.sub_sub]

/-- **The rows are accepted one after the other.** -/
theorem decides_inspectRows {count start : Nat} :
    Decides (inspectRows contract plan batch (List.range' start count)
      (limits.less (componentsBefore contract plan limits batch start)))
      (∀ row, start ≤ row → row < start + count → batch.schema = plan.inputSchema ∧
        row < batch.numRows ∧ AcceptedRow contract plan limits batch row)
      fun inspections => componentsBefore contract plan limits batch start +
        (inspections.map RowInspection.geometryComponents).sum =
          componentsBefore contract plan limits batch (start + count) := by
  induction count generalizing start with
  | zero =>
    refine Decides.congr (decides_ok ?_) (iff_true_intro fun row h hlt => absurd hlt (by omega))
    simp
  | succ count ih =>
    rw [List.range'_succ, inspectRows]
    have hrest : ∀ inspection : RowInspection, inspection.geometryComponents =
        rowComponents contract plan limits batch start →
        Decides (do
          let inspections ← inspectRows contract plan batch (List.range' (start + 1) count)
            ((limits.less (componentsBefore contract plan limits batch start)).less
              inspection.geometryComponents)
          .ok (inspection :: inspections))
          (∀ row, start + 1 ≤ row → row < start + 1 + count → batch.schema = plan.inputSchema ∧
            row < batch.numRows ∧ AcceptedRow contract plan limits batch row)
          fun inspections => componentsBefore contract plan limits batch start +
            (inspections.map RowInspection.geometryComponents).sum =
              componentsBefore contract plan limits batch (start + (count + 1)) := by
      intro inspection hinspection
      rw [hinspection, less_less, ← componentsBefore_succ]
      refine Decides.congr (ih.bind fun inspections h => decides_ok ?_)
        (and_iff_left trivial).symm
      rw [List.map_cons, List.sum_cons, hinspection, ← Nat.add_assoc, ← componentsBefore_succ, h]
      congr 1
      omega
    refine (decides_inspectRow.bind hrest).congr ?_
    constructor
    · intro h
      obtain ⟨hschema, hrow, hsound, hwide, hapart⟩ := h start (Nat.le_refl _) (by omega)
      exact ⟨⟨hschema, hrow, hsound, hwide, hapart.each, hapart.sum⟩,
        fun row hle hlt => h row (by omega) (by omega)⟩
    · rintro ⟨⟨hschema, hrow, hsound, hwide, heach, hsum⟩, hall⟩ row hle hlt
      rcases Nat.eq_or_lt_of_le hle with rfl | hlater
      · exact ⟨hschema, hrow, hsound, hwide, heach, hsum⟩
      · exact hall row hlater (by omega)

/-- The rows of a batch, from the first on. -/
theorem decides_allRows :
    Decides (inspectRows contract plan batch (List.range batch.numRows) limits)
      (batch.numRows = 0 ∨ Sound contract plan limits batch ∧
        (∀ row < batch.numRows, WideRow plan limits batch row) ∧
        ∀ row < batch.numRows, ApartRow contract plan limits batch row)
      fun inspections => (inspections.map RowInspection.geometryComponents).sum =
        componentsBefore contract plan limits batch batch.numRows := by
  have hrows := @decides_inspectRows contract plan limits batch batch.numRows 0
  have hlimits : limits.less (componentsBefore contract plan limits batch 0) = limits := rfl
  have hzero : componentsBefore contract plan limits batch 0 = 0 := rfl
  rw [hlimits, hzero, ← List.range_eq_range', Nat.zero_add] at hrows
  refine (hrows.congr ?_).imp fun inspections h => (Nat.zero_add _).symm.trans h
  constructor
  · rintro (hnone | ⟨hsound, hwide, hapart⟩) row - hrow
    · omega
    · exact ⟨hsound.schema, hrow, hsound.rows row hrow, hwide row hrow, hapart row hrow⟩
  · intro h
    rcases Nat.eq_zero_or_pos batch.numRows with hnone | hsome
    · exact .inl hnone
    · refine .inr ⟨⟨(h 0 (Nat.le_refl 0) hsome).1, fun row hrow => ?_⟩, fun row hrow => ?_,
        fun row hrow => ?_⟩
      · exact (h row (Nat.zero_le row) hrow).2.2.sound
      · exact (h row (Nat.zero_le row) hrow).2.2.wide
      · exact (h row (Nat.zero_le row) hrow).2.2.apart

/-- The values of the rows together, where they are within the limit, are so apart. -/
theorem apart_of_le (h : componentsBefore contract plan limits batch batch.numRows ≤
    limits.components) (hrow : row < batch.numRows) :
    ApartRow contract plan limits batch row := by
  have hmono {m n : Nat} (hle : m ≤ n) : componentsBefore contract plan limits batch m ≤
      componentsBefore contract plan limits batch n := by
    induction n, hle using Nat.le_induction with
    | base => exact Nat.le_refl _
    | succ n _ ih =>
      rw [componentsBefore_succ]
      omega
  have hnext := hmono (Nat.succ_le_of_lt hrow)
  have hbounded := limits.bounded
  rw [Nat.succ_eq_add_one, componentsBefore_succ] at hnext
  refine ⟨fun column hcolumn => ?_, by omega⟩
  have hcell : cellComponents contract plan limits batch row column ≤
      rowComponents contract plan limits batch row :=
    List.le_sum_of_mem (List.mem_map_of_mem hcolumn)
  omega

end Rows

/-! ## Agreement -/

/-- **A batch and its rows are accepted alike exactly where they have the same to ask.** -/
theorem inspections_agree_iff (batch : RecordBatch) :
    Agree contract plan limits batch ↔ Uniform contract plan limits batch := by
  have hbatch := @decides_inspectBatch contract plan limits batch
  have hrows := @decides_allRows contract plan limits batch
  have htotals : ∀ inspection inspections,
      inspectBatch contract plan limits batch = .ok inspection →
      inspectRows contract plan batch (List.range batch.numRows) limits = .ok inspections →
      inspection.geometryComponents = (inspections.map RowInspection.geometryComponents).sum := by
    intro inspection inspections hinspection hinspections
    obtain ⟨i, hi, htotal⟩ := hbatch.ok (hbatch.ok_iff.1 ⟨_, hinspection⟩)
    obtain ⟨r, hr, hsum⟩ := hrows.ok (hrows.ok_iff.1 ⟨_, hinspections⟩)
    rw [hinspection] at hi
    rw [hinspections] at hr
    cases hi
    cases hr
    rw [htotal, hsum]
  have hagree : Agree contract plan limits batch ↔
      ((∃ inspection, inspectBatch contract plan limits batch = .ok inspection) ↔
        ∃ inspections,
          inspectRows contract plan batch (List.range batch.numRows) limits = .ok inspections) :=
    ⟨fun h => h.accepts, fun h => ⟨h, htotals⟩⟩
  rw [hagree, hbatch.ok_iff, hrows.ok_iff]
  constructor
  · intro h
    refine ⟨fun hnone => ?_, fun hsound haddress hle row hrow => ?_,
      fun hsome hsound hwide hapart => ?_⟩
    · obtain ⟨hsound, haddress, -⟩ := h.2 (.inl hnone)
      exact ⟨hsound.schema, haddress⟩
    · rcases h.1 ⟨hsound, haddress, hle⟩ with hnone | ⟨-, hwide, -⟩
      · omega
      · exact hwide row hrow
    · exact (h.2 (.inr ⟨hsound, hwide, hapart⟩)).2
  · intro h
    constructor
    · rintro ⟨hsound, haddress, hle⟩
      exact .inr ⟨hsound, h.wide hsound haddress hle, fun row hrow => apart_of_le hle hrow⟩
    · intro haccepted
      rcases Nat.eq_zero_or_pos batch.numRows with hnone | hsome
      · obtain ⟨hschema, haddress⟩ := h.empty hnone
        refine ⟨⟨hschema, fun row hrow => absurd hrow (by omega)⟩, haddress, ?_⟩
        rw [hnone]
        exact Nat.zero_le _
      · obtain ⟨hsound, hwide, hapart⟩ := haccepted.resolve_left (by omega)
        exact ⟨hsound, h.together hsome hsound hwide hapart⟩

end Agreement

/-- A text of an offset that is longer than the limit of a cell. -/
def offsetText : Bytes := ⟨List.replicate 32 48, by decide⟩

def offsetField : Field := ⟨"at", .utf8, true, []⟩

def offsetPlan : WritePlan where
  inputSchema := [offsetField]
  columns := [⟨0, .timestampTz, true⟩]
  keyInputIndices := []
  typed := by decide
  keys := by decide

def offsetBatch : RecordBatch where
  schema := [offsetField]
  columns := [⟨.utf8, [some offsetText]⟩]
  numRows := 1
  memory := [64]
  typed := by decide
  lengths := by decide

/-- The batch is accepted and its row is refused. -/
theorem inspections_disagree :
    ¬ Agree (fun _ => .ok ⟨some false, none, none, none⟩) offsetPlan ⟨20, 1000, 16, by decide⟩
      offsetBatch := by
  intro h
  obtain ⟨inspections, hinspections⟩ := h.accepts.1 ⟨⟨1, 64, 0⟩, rfl⟩
  cases hinspections

end Plenora.Sqlserver.Inspection
