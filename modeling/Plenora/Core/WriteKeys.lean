import Plenora.Lib.Outcome
import Plenora.Lib.Machine
import Plenora.Lib.Ieee
import Plenora.Lib.PrefixCode
import Plenora.Lib.Padding
import Plenora.Core.Arrow

/-!
# Unique keys in the input of a keyed write

Every key of the input identifies one row.  A key is compared through its bytes:
each column behind a tag, NULL apart from a value, variable values behind their
length.  The bytes tell two keys apart exactly when the declared equality does,
so a batch is admitted exactly when no key of it was seen before:

    encodeKey columns row = encodeKey columns row' ↔ ∀ i ∈ columns, sameCell (row i) (row' i)
                                                                     (encodeKey_eq_iff)
    (run … history).admitBatch batch is Ok ↔
      (admitted ++ batch.rows).Pairwise fun r r' => ¬ EqualKeys nulls columns r r'   (admit_iff)
-/

namespace Plenora.Core.WriteKeys

open Plenora.Lib Plenora.Core.Arrow

/-! ## Data model -/

def duplicateInputKeys : String :=
  "chiave ripetuta nell'ingresso di una mode per chiavi: nessuna semantica comune fra i provider"

def uncomparableKeyType : String :=
  "tipo Arrow di una chiave non confrontabile per l'unicita dell'ingresso"

/-- Cost of a seen key beyond its bytes. -/
def entryOverheadBytes : Nat := 64

def duplicateKeys : DatabaseError :=
  .new .dataMapping .write none s!"scrittura rifiutata: {duplicateInputKeys}"

def uncomparable : DatabaseError := .new .unsupported .validate none uncomparableKeyType

/-- How the index that proves the keys treats NULL in a key column. -/
inductive NullKeys where
  | distinct | equal | equalUnlessAllNull
  deriving DecidableEq, Repr

/-- Memory granted by the budget. -/
structure ResourceLease where
  bytes : Nat
  deriving DecidableEq, Repr

/-- What the budget answers to a request of memory. -/
abbrev ResourceBudget := Nat → Result ResourceLease

/-- The keys seen in an input. -/
structure UniqueInputKeys (schema : Schema) where
  columns : List (Fin schema.length)
  nulls : NullKeys
  seen : Finset (List UInt8)
  leases : List ResourceLease

/-! ## Algorithm -/

/-- The types `encode` compares by value. -/
def comparable : DataType → Bool
  | .time32 unit => unit = .second ∨ unit = .millisecond
  | .time64 unit => unit = .microsecond ∨ unit = .nanosecond
  | .other _ => false
  | _ => true

def pushLen (bytes : List UInt8) : List UInt8 := leBytes 8 bytes.length ++ bytes

def trimZeros (bytes : List UInt8) : List UInt8 := trimEnd 0 bytes

/-- A text without its trailing spaces. -/
def trimSpaces (text : String) : String := String.ofList (trimEnd ' ' text.toList)

/-- `-0.0` and `0.0` are one key, and so are all NaN. -/
def floatBits (bits : UInt64) : UInt64 :=
  if Ieee.isNaN bits then 0x7ff8000000000000
  else if Ieee.isZero bits then 0
  else bits

def fixed {w : Nat} (value : BitVec w) : List UInt8 := leBytes (w / 8) value.toNat

/-- The bytes of a value that is not NULL. -/
def encode : (dataType : DataType) → dataType.Native → Result (List UInt8)
  | .boolean, value => .ok [if value then 1 else 0]
  | .int8, value | .uint8, value => .ok (fixed value)
  | .int16, value | .uint16, value => .ok (fixed value)
  | .int32, value | .uint32, value | .date32, value => .ok (fixed value)
  | .int64, value | .uint64, value | .date64, value => .ok (fixed value)
  | .float32, value => .ok (leBytes 8 (floatBits (Ieee.widen value)).toNat)
  | .float64, value => .ok (leBytes 8 (floatBits value).toNat)
  | .utf8, value | .largeUtf8, value => .ok (pushLen (utf8Bytes (trimSpaces value)))
  | .binary, value | .largeBinary, value => .ok (pushLen (trimZeros value))
  | .fixedSizeBinary _, value => .ok (pushLen (trimZeros value.1))
  | .time32 .second, value | .time32 .millisecond, value => .ok (fixed value)
  | .time64 .microsecond, value | .time64 .nanosecond, value => .ok (fixed value)
  | .timestamp _ _, value => .ok (fixed value)
  | .decimal128 _ _, value => .ok (fixed value)
  | .time32 _, _ | .time64 _, _ | .other _, _ => .error uncomparable

namespace UniqueInputKeys

variable {schema : Schema}

/-- The key columns of the schema, in the order of `keys`. -/
def keyColumns (schema : Schema) : List String → Result (List (Fin schema.length))
  | [] => .ok []
  | key :: keys => do
    let index ← okOr (schema.indexOf key) (.invalidPlan "chiave assente nello schema Arrow")
    let indices ← keyColumns schema keys
    .ok (index :: indices)

def new (schema : Schema) (keys : List String) (nulls : NullKeys) :
    Result (UniqueInputKeys schema) := do
  let columns ← keyColumns schema keys
  failIf (¬ columns.all fun index => comparable (schema.get index).dataType) uncomparable
  .ok { columns, nulls, seen := ∅, leases := [] }

/-- The columns of a key, from left to right; `none` when the row is passed over, else the bytes
and how many columns are NULL. -/
def keyOf (nullKeys : NullKeys) (row : BatchRow schema) :
    List (Fin schema.length) → List UInt8 → Nat → Result (Option (List UInt8 × Nat))
  | [], key, nulls => .ok (some (key, nulls))
  | index :: columns, key, nulls =>
    match row index with
    | none =>
      if nullKeys = .distinct then .ok none
      else keyOf nullKeys row columns (key ++ [0]) (nulls + 1)
    | some value => do
      let bytes ← encode _ value
      keyOf nullKeys row columns (key ++ 1 :: bytes) nulls

/-- The loop over the rows of a batch, with the keys of the batch and the bytes they take. -/
def admitRows (guard : UniqueInputKeys schema) :
    List (BatchRow schema) → Finset (List UInt8) → Nat → Result (Finset (List UInt8) × Nat)
  | [], batchKeys, bytes => .ok (batchKeys, bytes)
  | row :: rows, batchKeys, bytes => do
    match ← keyOf guard.nulls row guard.columns [] 0 with
    | none => guard.admitRows rows batchKeys bytes
    | some (key, nulls) =>
      if guard.nulls = .equalUnlessAllNull ∧ nulls = guard.columns.length then
        guard.admitRows rows batchKeys bytes
      else do
        let bytes ← okOr ((checkedAdd 64 bytes (min key.length (2 ^ 64 - 1))).bind
            (checkedAdd 64 · entryOverheadBytes))
          (.resourceLimit "overflow nella memoria delle chiavi")
        failIf (key ∈ guard.seen ∨ key ∈ batchKeys) duplicateKeys
        guard.admitRows rows (insert key batchKeys) bytes

/-- Record the keys of a batch; the guard left behind stands next to the verdict. -/
def admitBatch (guard : UniqueInputKeys schema) (batch : RecordBatch schema) (budget : ResourceBudget) :
    Result Unit × UniqueInputKeys schema :=
  match guard.admitRows batch.rows ∅ 0 with
  | .error e => (.error e, guard)
  | .ok (batchKeys, bytes) =>
    if bytes > 0 then
      match budget bytes with
      | .error e => (.error e, guard)
      | .ok lease =>
        (.ok (), { guard with leases := guard.leases ++ [lease], seen := guard.seen ∪ batchKeys })
    else (.ok (), { guard with seen := guard.seen ∪ batchKeys })

end UniqueInputKeys

/-! ## The declared equality -/

/-- Equality of key values: floats as numbers, with every NaN alike; texts without their trailing
spaces and binaries without their trailing zeros; the rest by value. -/
def sameValue : (dataType : DataType) → dataType.Native → dataType.Native → Prop
  | .float32, a, b => (Ieee.isNaN32 a ∧ Ieee.isNaN32 b) ∨ (Ieee.isZero32 a ∧ Ieee.isZero32 b) ∨ a = b
  | .float64, a, b => (Ieee.isNaN a ∧ Ieee.isNaN b) ∨ (Ieee.isZero a ∧ Ieee.isZero b) ∨ a = b
  | .utf8, a, b | .largeUtf8, a, b => SamePadded ' ' a.toList b.toList
  | .binary, a, b | .largeBinary, a, b => SamePadded 0 a b
  | .fixedSizeBinary _, a, b => SamePadded 0 a.1 b.1
  | _, a, b => a = b

/-- NULL is NULL, and values are compared as values. -/
def sameCell {dataType : DataType} : Option dataType.Native → Option dataType.Native → Prop :=
  Option.Rel (sameValue dataType)

section Keys

variable {schema : Schema} (nulls : NullKeys) (columns : List (Fin schema.length))

/-- A key the index compares with others at all. -/
def Registered (row : BatchRow schema) : Prop :=
  match nulls with
  | .distinct => ∀ i ∈ columns, (row i).isSome
  | .equal => True
  | .equalUnlessAllNull => ∃ i ∈ columns, (row i).isSome

instance : DecidablePred (Registered nulls columns) := fun row => by
  unfold Registered
  cases nulls <;> infer_instance

/-- Two rows the index would treat as one entry. -/
def EqualKeys (row row' : BatchRow schema) : Prop :=
  Registered nulls columns row ∧ Registered nulls columns row' ∧
    ∀ i ∈ columns, sameCell (row i) (row' i)

end Keys

/-! ## The encoding -/

theorem trimSpaces_bytes_iff (a b : String) :
    utf8Bytes (trimSpaces a) = utf8Bytes (trimSpaces b) ↔ SamePadded ' ' a.toList b.toList := by
  rw [utf8Bytes_inj, ← trimEnd_eq_iff]
  unfold trimSpaces
  constructor
  · intro h
    simpa using congrArg String.toList h
  · intro h
    rw [h]

theorem length_pushLen (bytes : List UInt8) : (pushLen bytes).length = 8 + bytes.length := by
  unfold pushLen
  rw [List.length_append, length_leBytes]

/-- Words of a whole number of bytes. -/
theorem fixed_delimits {w : Nat} (hw : w % 8 = 0) (P : BitVec w → Prop) :
    Delimits P (fun a b => a = b) fixed := by
  have hpow : 256 ^ (w / 8) = 2 ^ w := by
    rw [show 256 = 2 ^ 8 from rfl, ← Nat.pow_mul]
    congr 1
    omega
  refine .of_length (fun a _ => length_leBytes _ _) fun a b _ _ => ?_
  unfold fixed
  rw [leBytes_inj (by rw [hpow]; exact a.isLt) (by rw [hpow]; exact b.isLt), BitVec.toNat_inj]

/-- Bytes behind their length. -/
theorem pushLen_delimits {α : Type} {r : α → α → Prop} {f : α → List UInt8}
    (hf : ∀ a b, f a = f b ↔ r a b) :
    Delimits (fun a => (pushLen (f a)).length < 2 ^ 64) r fun a => pushLen (f a) := by
  refine .lengthPrefixed (fun k => length_leBytes 8 k) (fun a b ha hb h => ?_)
    (fun a b _ _ => hf a b)
  rw [length_pushLen] at ha hb
  exact (leBytes_inj (by omega) (by omega)).1 h

/-- The classes `floatBits` makes of the numbers: the NaN, the zeros, each other number. -/
theorem floatBits_eq_iff (a b : UInt64) :
    floatBits a = floatBits b ↔
      (Ieee.isNaN a ∧ Ieee.isNaN b) ∨ (Ieee.isZero a ∧ Ieee.isZero b) ∨ a = b := by
  have hnan : Ieee.isNaN 0x7ff8000000000000 := by decide
  have hzero : Ieee.isZero 0 := by decide
  have hdisj (c : UInt64) : Ieee.isZero c → ¬ Ieee.isNaN c := by
    rw [Ieee.isZero_iff]
    unfold Ieee.isNaN
    rintro ⟨h, -⟩
    simp [h]
  have hclass (c : UInt64) :
      Ieee.isNaN (floatBits c) = Ieee.isNaN c ∧ Ieee.isZero (floatBits c) = Ieee.isZero c := by
    unfold floatBits
    split
    next h => exact ⟨by rw [hnan, h], by have := mt (hdisj c) (not_not.2 h); simp_all; decide⟩
    next h =>
      split
      next h' => exact ⟨by simp only [h]; decide, by rw [hzero, h']⟩
      next => exact ⟨rfl, rfl⟩
  constructor
  · intro h
    have hn : Ieee.isNaN a = Ieee.isNaN b := by rw [← (hclass a).1, ← (hclass b).1, h]
    have hz : Ieee.isZero a = Ieee.isZero b := by rw [← (hclass a).2, ← (hclass b).2, h]
    by_cases hna : Ieee.isNaN a
    · exact .inl ⟨hna, hn ▸ hna⟩
    by_cases hza : Ieee.isZero a
    · exact .inr (.inl ⟨hza, hz ▸ hza⟩)
    · refine .inr (.inr ?_)
      have hnb : ¬ Ieee.isNaN b := hn ▸ hna
      have hzb : ¬ Ieee.isZero b := hz ▸ hza
      unfold floatBits at h
      rwa [if_neg hna, if_neg hza, if_neg hnb, if_neg hzb] at h
  · rintro (⟨ha, hb⟩ | ⟨ha, hb⟩ | rfl)
    · unfold floatBits
      rw [if_pos ha, if_pos hb]
    · unfold floatBits
      rw [if_neg (hdisj a ha), if_neg (hdisj b hb), if_pos ha, if_pos hb]
    · rfl

theorem floatBits_delimits {α : Type} {r : α → α → Prop} (P : α → Prop) {f : α → UInt64}
    (hf : ∀ a b, floatBits (f a) = floatBits (f b) ↔ r a b) :
    Delimits P r fun a => leBytes 8 (floatBits (f a)).toNat := by
  refine .of_length (fun a _ => length_leBytes _ _) fun a b _ _ => ?_
  have hlt (c : UInt64) : c.toNat < 256 ^ 8 := c.toNat_lt
  rw [leBytes_inj (hlt _) (hlt _), UInt64.toNat_inj, hf]

/-- What `encode` adds for a value of a comparable type. -/
def encodeBytes (dataType : DataType) (value : dataType.Native) : List UInt8 :=
  match encode dataType value with
  | .ok bytes => bytes
  | .error _ => []

theorem encode_eq {dataType : DataType} (h : comparable dataType) (value : dataType.Native) :
    encode dataType value = .ok (encodeBytes dataType value) := by
  unfold encodeBytes
  cases dataType with
  | other name => simp [comparable] at h
  | time32 unit => cases unit <;> first | rfl | simp [comparable] at h
  | time64 unit => cases unit <;> first | rfl | simp [comparable] at h
  | _ => rfl

/-- **A value can be read back from a key, up to the declared equality.** -/
theorem encodeBytes_delimits {dataType : DataType} (h : comparable dataType) :
    Delimits (fun value => (encodeBytes dataType value).length < 2 ^ 64) (sameValue dataType)
      (encodeBytes dataType) := by
  cases dataType with
  | boolean =>
    refine .of_length (n := 1) (fun a _ => by cases a <;> rfl) fun a b _ _ => ?_
    cases a <;> cases b <;> simp [encodeBytes, encode, sameValue]
  | int8 | uint8 | int16 | uint16 | int32 | uint32 | date32 | int64 | uint64 | date64
  | timestamp | decimal128 => exact fixed_delimits rfl _
  | float32 =>
    refine floatBits_delimits _ fun a b => ?_
    rw [floatBits_eq_iff, Ieee.isNaN_widen, Ieee.isNaN_widen, Ieee.isZero_widen,
      Ieee.isZero_widen, Ieee.widen_inj]
    rfl
  | float64 => exact floatBits_delimits _ floatBits_eq_iff
  | utf8 | largeUtf8 => exact pushLen_delimits trimSpaces_bytes_iff
  | binary | largeBinary => exact pushLen_delimits (trimEnd_eq_iff 0)
  | fixedSizeBinary size => exact pushLen_delimits fun a b => trimEnd_eq_iff 0 a.1 b.1
  | time32 unit => cases unit <;> first | exact fixed_delimits rfl _ | simp [comparable] at h
  | time64 unit => cases unit <;> first | exact fixed_delimits rfl _ | simp [comparable] at h
  | other name => simp [comparable] at h

section Keys

variable {schema : Schema} (nulls : NullKeys) (columns : List (Fin schema.length))

/-- What `keyOf` adds for one column. -/
def cellBytes {dataType : DataType} : Option dataType.Native → List UInt8
  | none => [0]
  | some value => 1 :: encodeBytes dataType value

def encodeKey (row : BatchRow schema) : List UInt8 := columns.flatMap fun i => cellBytes (row i)

/-- The key a row is registered under; `none` for a row that is passed over. -/
def keyBytes (row : BatchRow schema) : Option (List UInt8) :=
  if Registered nulls columns row then some (encodeKey columns row) else none

/-- Every column of the key is of a type `encode` compares. -/
def Comparable : Prop := ∀ i ∈ columns, comparable (schema.get i).dataType

variable {columns}

theorem cellBytes_delimits {dataType : DataType} (h : comparable dataType) :
    Delimits (fun cell => ∀ value ∈ cell, (encodeBytes dataType value).length < 2 ^ 64) sameCell
      (@cellBytes dataType) := by
  have hopt := Delimits.option (s := 0) (t := 1) (by decide) (encodeBytes_delimits h)
  intro a b ha hb x y
  rw [show sameCell a b = Option.Rel (sameValue dataType) a b from rfl, ← hopt a b ha hb x y]
  cases a <;> cases b <;> rfl

theorem encodeBytes_le_encodeKey {i : Fin schema.length} (hi : i ∈ columns)
    (row : BatchRow schema) (value) (hv : value ∈ row i) :
    (encodeBytes _ value).length ≤ (encodeKey columns row).length := by
  have hcell : (cellBytes (row i)).length ≤ (encodeKey columns row).length := by
    unfold encodeKey
    rw [List.length_flatMap]
    exact List.le_sum_of_mem (List.mem_map.2 ⟨i, hi, rfl⟩)
  rw [Option.mem_def.1 hv] at hcell
  simp only [cellBytes, List.length_cons] at hcell
  omega

/-- **Two keys have the same bytes exactly when they are equal column by column.** -/
theorem encodeKey_eq_iff (h : Comparable columns) (row row' : BatchRow schema)
    (hlen : (encodeKey columns row).length < 2 ^ 64)
    (hlen' : (encodeKey columns row').length < 2 ^ 64) :
    encodeKey columns row = encodeKey columns row' ↔ ∀ i ∈ columns, sameCell (row i) (row' i) := by
  have hdelim := Delimits.flatMap (g := fun i (r : BatchRow schema) => cellBytes (r i))
    fun i (hi : i ∈ columns) => (cellBytes_delimits (h i hi)).comap fun r : BatchRow schema => r i
  exact hdelim.eq_iff
    (fun i hi v hv => (encodeBytes_le_encodeKey hi row v hv).trans_lt hlen)
    (fun i hi v hv => (encodeBytes_le_encodeKey hi row' v hv).trans_lt hlen')

theorem keyBytes_eq_some {row : BatchRow schema} {key : List UInt8} :
    keyBytes nulls columns row = some key ↔
      Registered nulls columns row ∧ key = encodeKey columns row := by
  unfold keyBytes
  split
  next h => simp [h, eq_comm]
  next h => simp [h]

/-- The keys of these rows, in order. -/
def keysOf (nulls : NullKeys) (columns : List (Fin schema.length)) (rows : List (BatchRow schema)) :
    List (List UInt8) :=
  rows.filterMap (keyBytes nulls columns)

/-- The memory the keys take. -/
def keysCost (keys : List (List UInt8)) : Nat :=
  (keys.map fun key => key.length + entryOverheadBytes).sum

/-- Distinct bytes are distinct keys. -/
theorem nodup_keysOf_iff (h : Comparable columns) (rows : List (BatchRow schema))
    (hlen : ∀ key ∈ keysOf nulls columns rows, key.length < 2 ^ 64) :
    (keysOf nulls columns rows).Nodup ↔
      rows.Pairwise fun row row' => ¬ EqualKeys nulls columns row row' := by
  have hmem {row} (hrow : row ∈ rows) (hr : Registered nulls columns row) :
      (encodeKey columns row).length < 2 ^ 64 :=
    hlen _ (List.mem_filterMap.2 ⟨row, hrow, (keyBytes_eq_some nulls).2 ⟨hr, rfl⟩⟩)
  unfold List.Nodup keysOf
  rw [List.pairwise_filterMap]
  refine List.Pairwise.iff_of_mem fun {row row'} hrow hrow' => ?_
  simp only [keyBytes_eq_some]
  constructor
  · rintro hne ⟨hr, hr', heq⟩
    exact hne _ ⟨hr, rfl⟩ _ ⟨hr', rfl⟩
      ((encodeKey_eq_iff h row row' (hmem hrow hr) (hmem hrow' hr')).2 heq)
  · rintro hne _ ⟨hr, rfl⟩ _ ⟨hr', rfl⟩ heq
    exact hne ⟨hr, hr', (encodeKey_eq_iff h row row' (hmem hrow hr) (hmem hrow' hr')).1 heq⟩

end Keys

/-! ## One batch -/

namespace UniqueInputKeys

variable {schema : Schema}

theorem keyOf_eq (nullKeys : NullKeys) (row : BatchRow schema)
    {columns : List (Fin schema.length)} (h : Comparable columns) (key : List UInt8) (nulls : Nat) :
    keyOf nullKeys row columns key nulls =
      if nullKeys = .distinct ∧ ∃ i ∈ columns, row i = none then .ok none
      else .ok (some (key ++ encodeKey columns row,
        nulls + columns.countP fun i => (row i).isNone)) := by
  induction columns generalizing key nulls with
  | nil => simp [keyOf, encodeKey]
  | cons i columns ih =>
    have hcolumns : Comparable columns := fun j hj => h j (List.mem_cons_of_mem _ hj)
    unfold keyOf
    cases hcell : row i with
    | none =>
      by_cases hd : nullKeys = .distinct
      · simp [hd, hcell]
      · simp [hd, hcell, ih hcolumns, encodeKey, cellBytes]
        omega
    | some value =>
      simp only [encode_eq (h i List.mem_cons_self), ok_bind, ih hcolumns]
      simp [hcell, encodeKey, cellBytes]

/-- A row that is passed over leaves the loop as it was. -/
theorem admitRows_skip (guard : UniqueInputKeys schema) (h : Comparable guard.columns)
    {row : BatchRow schema} (hrow : keyBytes guard.nulls guard.columns row = none)
    (rows : List (BatchRow schema)) (batchKeys : Finset (List UInt8)) (bytes : Nat) :
    guard.admitRows (row :: rows) batchKeys bytes = guard.admitRows rows batchKeys bytes := by
  have hreg : ¬ Registered guard.nulls guard.columns row := by
    intro hr
    unfold keyBytes at hrow
    rw [if_pos hr] at hrow
    cases hrow
  conv_lhs => unfold admitRows
  rw [keyOf_eq _ _ h]
  cases hn : guard.nulls with
  | distinct =>
    rw [hn] at hreg
    simp only [Registered, not_forall, Option.not_isSome_iff_eq_none] at hreg
    obtain ⟨i, hi, hnone⟩ := hreg
    have hpassed : NullKeys.distinct = .distinct ∧ ∃ i ∈ guard.columns, row i = none :=
      ⟨rfl, i, hi, hnone⟩
    rw [if_pos hpassed, ok_bind]
  | equal =>
    rw [hn] at hreg
    exact absurd trivial hreg
  | equalUnlessAllNull =>
    rw [hn] at hreg
    simp only [Registered, not_exists, not_and] at hreg
    have hcount : (guard.columns.countP fun i => (row i).isNone) = guard.columns.length :=
      List.countP_eq_length.2 fun i hi => by simpa using hreg i hi
    simp [hcount]

/-- A registered row adds its key, unless it was seen or the memory overflows. -/
theorem admitRows_key (guard : UniqueInputKeys schema) (h : Comparable guard.columns)
    {row : BatchRow schema} {key : List UInt8}
    (hrow : keyBytes guard.nulls guard.columns row = some key)
    (rows : List (BatchRow schema)) (batchKeys : Finset (List UInt8)) (bytes : Nat) :
    guard.admitRows (row :: rows) batchKeys bytes =
      if bytes + (key.length + entryOverheadBytes) < 2 ^ 64 then
        if key ∈ guard.seen ∨ key ∈ batchKeys then .error duplicateKeys
        else guard.admitRows rows (insert key batchKeys)
          (bytes + (key.length + entryOverheadBytes))
      else .error (.resourceLimit "overflow nella memoria delle chiavi") := by
  obtain ⟨hreg, rfl⟩ := (keyBytes_eq_some _).1 hrow
  have hspec : keyOf guard.nulls row guard.columns [] 0 =
        .ok (some (encodeKey guard.columns row,
          guard.columns.countP fun i => (row i).isNone)) ∧
      ¬ (guard.nulls = .equalUnlessAllNull ∧
        (guard.columns.countP fun i => (row i).isNone) = guard.columns.length) := by
    rw [keyOf_eq _ _ h]
    constructor
    · rw [if_neg, List.nil_append, Nat.zero_add]
      rintro ⟨hn, i, hi, hnone⟩
      rw [hn] at hreg
      simpa [hnone] using hreg i hi
    · rintro ⟨hn, hcount⟩
      rw [hn] at hreg
      obtain ⟨i, hi, hsome⟩ := hreg
      have := List.countP_eq_length.1 hcount i hi
      simp_all
  conv_lhs => unfold admitRows
  simp only [hspec.1, ok_bind, if_neg hspec.2]
  split
  next hlt =>
    have hadd : ((checkedAdd 64 bytes (min (encodeKey guard.columns row).length
        (2 ^ 64 - 1))).bind (checkedAdd 64 · entryOverheadBytes)) =
        some (bytes + ((encodeKey guard.columns row).length + entryOverheadBytes)) := by
      rw [Nat.min_eq_left (by omega), Option.bind_eq_some_iff]
      refine ⟨_, checkedAdd_eq_some.2 ⟨by omega, rfl⟩, checkedAdd_eq_some.2 ⟨by omega, by omega⟩⟩
    rw [hadd, okOr_some, ok_bind]
    unfold failIf
    split <;> rfl
  next hge =>
    have hadd : ((checkedAdd 64 bytes (min (encodeKey guard.columns row).length
        (2 ^ 64 - 1))).bind (checkedAdd 64 · entryOverheadBytes)) = none := by
      rw [Option.bind_eq_none_iff]
      intro sum hsum
      obtain ⟨-, rfl⟩ := checkedAdd_eq_some.1 hsum
      unfold entryOverheadBytes at hge ⊢
      unfold checkedAdd
      rw [if_neg]
      omega
    rw [hadd]
    rfl

/-- **The loop answers `Ok` exactly when the keys of the rows are new, differ from each other and
fit the counter.** -/
theorem admitRows_eq_ok (guard : UniqueInputKeys schema) (h : Comparable guard.columns)
    (rows : List (BatchRow schema)) (batchKeys : Finset (List UInt8)) {bytes : Nat}
    (hbytes : bytes < 2 ^ 64) (out : Finset (List UInt8) × Nat) :
    guard.admitRows rows batchKeys bytes = .ok out ↔
      (keysOf guard.nulls guard.columns rows).Nodup ∧
        (∀ key ∈ keysOf guard.nulls guard.columns rows, key ∉ guard.seen ∧ key ∉ batchKeys) ∧
        bytes + keysCost (keysOf guard.nulls guard.columns rows) < 2 ^ 64 ∧
        out = (batchKeys ∪ (keysOf guard.nulls guard.columns rows).toFinset,
          bytes + keysCost (keysOf guard.nulls guard.columns rows)) := by
  induction rows generalizing batchKeys bytes with
  | nil =>
    simp only [admitRows, keysOf, keysCost, List.filterMap_nil, List.map_nil, List.sum_nil,
      List.nodup_nil, List.not_mem_nil, IsEmpty.forall_iff, implies_true, true_and, Nat.add_zero,
      hbytes, List.toFinset_nil, Finset.union_empty, Except.ok.injEq]
    exact eq_comm
  | cons row rows ih =>
    cases hrow : keyBytes guard.nulls guard.columns row with
    | none =>
      have hkeys : keysOf guard.nulls guard.columns (row :: rows) =
          keysOf guard.nulls guard.columns rows := List.filterMap_cons_none hrow
      rw [admitRows_skip guard h hrow, hkeys]
      exact ih batchKeys hbytes
    | some key =>
      have hkeys : keysOf guard.nulls guard.columns (row :: rows) =
          key :: keysOf guard.nulls guard.columns rows := List.filterMap_cons_some hrow
      have hcost : keysCost (key :: keysOf guard.nulls guard.columns rows) =
          key.length + entryOverheadBytes + keysCost (keysOf guard.nulls guard.columns rows) := by
        simp [keysCost]
      rw [admitRows_key guard h hrow, hkeys, hcost]
      simp only [List.nodup_cons, List.forall_mem_cons, List.toFinset_cons,
        Finset.union_insert, ← Finset.insert_union]
      split
      next hlt =>
        split
        next hold =>
          refine iff_of_false nofun ?_
          rintro ⟨-, ⟨hnew, -⟩, -⟩
          exact hold.elim hnew.1 hnew.2
        next hnew =>
          rw [not_or] at hnew
          rw [ih _ hlt, Nat.add_assoc]
          simp only [Finset.mem_insert, not_or]
          constructor
          · rintro ⟨hnodup, hall, hsum, rfl⟩
            exact ⟨⟨fun hmem => (hall key hmem).2.1 rfl, hnodup⟩,
              ⟨hnew, fun k hk => ⟨(hall k hk).1, (hall k hk).2.2⟩⟩, hsum, rfl⟩
          · rintro ⟨⟨hmem, hnodup⟩, ⟨-, hall⟩, hsum, rfl⟩
            exact ⟨hnodup, fun k hk => ⟨(hall k hk).1, fun he => hmem (he ▸ hk), (hall k hk).2⟩,
              hsum, rfl⟩
      next hge =>
        refine iff_of_false nofun ?_
        rintro ⟨-, -, hsum, -⟩
        omega

/-- The budget grants the memory the keys of this batch take, and the counter holds it. -/
def Sufficient (guard : UniqueInputKeys schema) (batch : RecordBatch schema)
    (budget : ResourceBudget) : Prop :=
  keysCost (keysOf guard.nulls guard.columns batch.rows) < 2 ^ 64 ∧
    ∃ lease, budget (keysCost (keysOf guard.nulls guard.columns batch.rows)) = .ok lease

/-- A call that fails leaves the guard as it was. -/
theorem admit_error (guard : UniqueInputKeys schema) (batch : RecordBatch schema)
    (budget : ResourceBudget) {e : DatabaseError} (h : (guard.admitBatch batch budget).1 = .error e) :
    (guard.admitBatch batch budget).2 = guard := by
  unfold admitBatch at h ⊢
  split
  next => rfl
  next hrows =>
    rw [hrows] at h
    dsimp only at h ⊢
    split
    next hpos =>
      rw [if_pos hpos] at h
      split
      next => rfl
      next hlease =>
        rw [hlease] at h
        cases h
    next hpos =>
      rw [if_neg hpos] at h
      cases h

/-- A call that succeeds found every key of the batch new, and remembers them. -/
theorem admit_ok (guard : UniqueInputKeys schema) (h : Comparable guard.columns)
    (batch : RecordBatch schema) (budget : ResourceBudget)
    (hok : (guard.admitBatch batch budget).1 = .ok ()) :
    let keys := keysOf guard.nulls guard.columns batch.rows
    keys.Nodup ∧ (∀ key ∈ keys, key ∉ guard.seen) ∧ keysCost keys < 2 ^ 64 ∧
      (guard.admitBatch batch budget).2.seen = guard.seen ∪ keys.toFinset ∧
      (guard.admitBatch batch budget).2.columns = guard.columns ∧
      (guard.admitBatch batch budget).2.nulls = guard.nulls := by
  unfold admitBatch at hok ⊢
  split at hok
  next => cases hok
  next batchKeys bytes hrows =>
    obtain ⟨hnodup, hnew, hsum, hout⟩ :=
      (guard.admitRows_eq_ok h batch.rows ∅ (by decide) _).1 hrows
    obtain ⟨rfl, rfl⟩ := Prod.mk.inj hout
    refine ⟨hnodup, fun key hkey => (hnew key hkey).1, by omega, ?_⟩
    split
    next hpos =>
      rw [if_pos hpos] at hok
      split at hok
      next => cases hok
      next => exact ⟨by rw [Finset.empty_union], rfl, rfl⟩
    next => exact ⟨by rw [Finset.empty_union], rfl, rfl⟩

theorem admit_eq_ok_iff (guard : UniqueInputKeys schema) (h : Comparable guard.columns)
    (batch : RecordBatch schema) (budget : ResourceBudget) (hbudget : guard.Sufficient batch budget) :
    (guard.admitBatch batch budget).1 = .ok () ↔
      (keysOf guard.nulls guard.columns batch.rows).Nodup ∧
        ∀ key ∈ keysOf guard.nulls guard.columns batch.rows, key ∉ guard.seen := by
  constructor
  · intro hok
    obtain ⟨hnodup, hnew, -⟩ := guard.admit_ok h batch budget hok
    exact ⟨hnodup, hnew⟩
  · rintro ⟨hnodup, hnew⟩
    obtain ⟨hcost, lease, hlease⟩ := hbudget
    have hrows := (guard.admitRows_eq_ok h batch.rows ∅ (by decide : 0 < 2 ^ 64) _).2
      ⟨hnodup, fun key hkey => ⟨hnew key hkey, Finset.notMem_empty key⟩, by omega, rfl⟩
    unfold admitBatch
    rw [hrows]
    dsimp only
    rw [Nat.zero_add, hlease]
    split <;> rfl

end UniqueInputKeys

/-! ## A sequence of batches -/

section Runs

variable {schema : Schema}

/-- An input as it is read: the guard, and the rows of the batches admitted so far. -/
structure Input (schema : Schema) where
  guard : UniqueInputKeys schema
  admitted : List (BatchRow schema)

/-- The next call of `admitBatch`; a refused batch is not admitted. -/
def Input.admitCall (input : Input schema) (call : RecordBatch schema × ResourceBudget) :
    Input schema :=
  match input.guard.admitBatch call.1 call.2 with
  | (.ok (), guard) => { guard, admitted := input.admitted ++ call.1.rows }
  | (.error _, guard) => { guard, admitted := input.admitted }

def Input.run (input : Input schema) (calls : List (RecordBatch schema × ResourceBudget)) :
    Input schema :=
  calls.foldl Input.admitCall input

/-- The guard remembers the keys of the admitted rows, which differ from each other. -/
structure Input.Remembers (input : Input schema) (nulls : NullKeys)
    (columns : List (Fin schema.length)) : Prop where
  nulls_eq : input.guard.nulls = nulls
  columns_eq : input.guard.columns = columns
  seen : input.guard.seen = (keysOf nulls columns input.admitted).toFinset
  nodup : (keysOf nulls columns input.admitted).Nodup
  short : ∀ key ∈ keysOf nulls columns input.admitted, key.length < 2 ^ 64

variable {nulls : NullKeys} {columns : List (Fin schema.length)}

theorem length_lt_of_keysCost {keys : List (List UInt8)} (h : keysCost keys < 2 ^ 64)
    {key : List UInt8} (hkey : key ∈ keys) : key.length < 2 ^ 64 := by
  have : key.length + entryOverheadBytes ≤ keysCost keys :=
    List.le_sum_of_mem (List.mem_map.2 ⟨key, hkey, rfl⟩)
  omega

theorem nodup_append_keysOf (admitted rows : List (BatchRow schema)) :
    (keysOf nulls columns (admitted ++ rows)).Nodup ↔
      (keysOf nulls columns admitted).Nodup ∧ (keysOf nulls columns rows).Nodup ∧
        ∀ key ∈ keysOf nulls columns rows, key ∉ keysOf nulls columns admitted := by
  unfold keysOf
  rw [List.filterMap_append, List.nodup_append']
  refine and_congr_right fun _ => and_congr_right fun _ => ?_
  exact ⟨fun h key hkey hold => h hold hkey, fun h key hold hkey => h key hkey hold⟩

theorem Input.Remembers.admitCall {input : Input schema} (hin : input.Remembers nulls columns)
    (h : Comparable columns) (call : RecordBatch schema × ResourceBudget) :
    (input.admitCall call).Remembers nulls columns := by
  obtain ⟨rfl, rfl, hseen, hnodup, hshort⟩ := hin
  have hmem (key) : key ∈ input.guard.seen ↔
      key ∈ keysOf input.guard.nulls input.guard.columns input.admitted := by
    rw [hseen, List.mem_toFinset]
  unfold Input.admitCall
  split
  next guard hcall =>
    have hspec := input.guard.admit_ok h call.1 call.2 (by rw [hcall])
    rw [hcall] at hspec
    obtain ⟨hnew, hfresh, hcost, hset, hcolumns, hnulls⟩ := hspec
    have happend : keysOf input.guard.nulls input.guard.columns (input.admitted ++ call.1.rows) =
        keysOf input.guard.nulls input.guard.columns input.admitted ++
          keysOf input.guard.nulls input.guard.columns call.1.rows := List.filterMap_append
    refine ⟨hnulls, hcolumns, ?_, ?_, ?_⟩
    · dsimp only at hset ⊢
      rw [hset, hseen, happend, List.toFinset_append]
    · refine (nodup_append_keysOf _ _).2 ⟨hnodup, hnew, fun key hkey hold => ?_⟩
      exact hfresh key hkey ((hmem key).2 hold)
    · intro key hkey
      rw [happend] at hkey
      rcases List.mem_append.1 hkey with hold | hkey
      · exact hshort key hold
      · exact length_lt_of_keysCost hcost hkey
  next e guard hcall =>
    have hsame := input.guard.admit_error call.1 call.2 (e := e) (by rw [hcall])
    rw [hcall] at hsame
    dsimp only at hsame
    subst hsame
    exact ⟨rfl, rfl, hseen, hnodup, hshort⟩

theorem Input.Remembers.run {input : Input schema} (hin : input.Remembers nulls columns)
    (h : Comparable columns) (calls : List (RecordBatch schema × ResourceBudget)) :
    (input.run calls).Remembers nulls columns := by
  unfold Input.run
  induction calls generalizing input with
  | nil => exact hin
  | cons call calls ih => exact ih (hin.admitCall h call)

/-- A new guard has seen nothing, and compares every type of its key. -/
theorem new_eq_ok {keys : List String} {guard : UniqueInputKeys schema}
    (h : UniqueInputKeys.new schema keys nulls = .ok guard) :
    guard.nulls = nulls ∧ UniqueInputKeys.keyColumns schema keys = .ok guard.columns ∧
      guard.seen = ∅ ∧ Comparable guard.columns := by
  unfold UniqueInputKeys.new at h
  simp only [bind_eq_ok, failIf_eq_ok, exists_const, Except.ok.injEq] at h
  obtain ⟨columns, hcolumns, hcomparable, rfl⟩ := h
  refine ⟨rfl, hcolumns, rfl, fun i hi => ?_⟩
  rw [not_not, List.all_eq_true] at hcomparable
  exact hcomparable i hi

/-- **Over any sequence of batches, a batch is admitted exactly when no two rows of the input up
to its end have equal keys; a refused one leaves the seen keys as they were.** -/
theorem admit_iff (keys : List String) (guard : UniqueInputKeys schema)
    (hnew : UniqueInputKeys.new schema keys nulls = .ok guard)
    (history : List (RecordBatch schema × ResourceBudget)) (batch : RecordBatch schema)
    (budget : ResourceBudget)
    (hbudget : (Input.run ⟨guard, []⟩ history).guard.Sufficient batch budget) :
    let input := Input.run ⟨guard, []⟩ history
    ((input.guard.admitBatch batch budget).1 = .ok () ↔
      (input.admitted ++ batch.rows).Pairwise fun row row' =>
        ¬ EqualKeys nulls guard.columns row row') ∧
    ((input.guard.admitBatch batch budget).1 ≠ .ok () →
      (input.guard.admitBatch batch budget).2.seen = input.guard.seen) := by
  obtain ⟨hnulls, -, hempty, hcomparable⟩ := new_eq_ok hnew
  intro input
  have hstart : Input.Remembers ⟨guard, []⟩ nulls guard.columns :=
    ⟨hnulls, rfl, hempty, List.nodup_nil, fun key hkey => absurd hkey List.not_mem_nil⟩
  have hin : input.Remembers nulls guard.columns := hstart.run hcomparable history
  constructor
  · have hcost := hbudget.1
    change keysCost (keysOf input.guard.nulls input.guard.columns batch.rows) < _ at hcost
    rw [hin.nulls_eq, hin.columns_eq] at hcost
    rw [input.guard.admit_eq_ok_iff (by rw [hin.columns_eq]; exact hcomparable) batch budget hbudget,
      hin.nulls_eq, hin.columns_eq, ← nodup_keysOf_iff nulls hcomparable, nodup_append_keysOf]
    · simp only [hin.seen, List.mem_toFinset, hin.nodup, true_and]
    · intro key hkey
      unfold keysOf at hkey
      rw [List.filterMap_append] at hkey
      rcases List.mem_append.1 hkey with hold | hkey
      · exact hin.short key hold
      · exact length_lt_of_keysCost hcost hkey
  · intro herror
    cases hcall : (input.guard.admitBatch batch budget).1 with
    | ok u => exact absurd hcall herror
    | error e => rw [input.guard.admit_error batch budget hcall]

/-! A customer key made of a number and a name, with NULL equal to NULL. -/

def customers : Schema := [⟨"id", .int32⟩, ⟨"nome", .utf8⟩]

def customer (id : BitVec 32) (nome : Option String) : BatchRow customers
  | ⟨0, _⟩ => some id
  | ⟨1, _⟩ => nome

def customerKeys : UniqueInputKeys customers :=
  { columns := [⟨0, by decide⟩, ⟨1, by decide⟩], nulls := .equal, seen := ∅, leases := [] }

/-- A name that differs in its trailing spaces repeats a key of an earlier batch. -/
theorem admit_iff_customers :
    let input := Input.run ⟨customerKeys, []⟩ [(⟨[customer 1 "Ada", customer 1 none]⟩, fun n => .ok ⟨n⟩)]
    ((input.guard.admitBatch ⟨[customer 2 none, customer 1 "Ada  "]⟩ fun n => .ok ⟨n⟩).1 = .ok () ↔
      (input.admitted ++ [customer 2 none, customer 1 "Ada  "]).Pairwise fun row row' =>
        ¬ EqualKeys .equal customerKeys.columns row row') ∧
    ((input.guard.admitBatch ⟨[customer 2 none, customer 1 "Ada  "]⟩ fun n => .ok ⟨n⟩).1 ≠ .ok () →
      (input.guard.admitBatch ⟨[customer 2 none, customer 1 "Ada  "]⟩ fun n => .ok ⟨n⟩).2.seen =
        input.guard.seen) :=
  admit_iff ["id", "nome"] customerKeys rfl _ _ _ ⟨by decide +kernel, _, rfl⟩

end Runs

end Plenora.Core.WriteKeys
