import Plenora.Core.GeometryReader
import Plenora.Sdk.JsonInput

/-!
# GeoJSON against the geometry reader

The bytes that the SDK encodes are read back as the nodes of the GeoJSON value,
coordinates as floats.  The core accepts them where no SRID stands on a member,
the nesting is within its bound and every ring ends on the very bytes it starts
with.

    geojsonToWkb levels geometry (.object members) = .ok bytes →
      (Reproduced levels geometry members bytes ↔ Faithful …)              (reproduced_iff)
-/

namespace Plenora.Sdk.JsonInput

open Plenora.Lib Plenora.Lib.Wkb Plenora.Core.GeometryValue

/-! ## What a GeoJSON value describes -/

def items : Value → List Value
  | .list values => values
  | _ => []

def toFloat : Value → UInt64
  | .int n => Ieee.ofInt n
  | .float bits => bits
  | _ => 0

/-- The number of a coordinate and its sign; a float may be a negative zero. -/
def exact : Value → Rat × Bool
  | .int n => (n, decide (n < 0))
  | .float bits => (Ieee.toRat bits, Ieee.negative bits)
  | _ => (0, false)

def exactBits (bits : UInt64) : Rat × Bool := (Ieee.toRat bits, Ieee.negative bits)

/-- The type of a geometry and the value of its coordinates or members. -/
def parse (members : Members) : Option (Kind × Value) := do
  let kind ← kindOf (get members "type")
  let content ← get members (coordinateMember kind)
  some (kind, content)

def contentOf (kind : Kind) (content : Value) : Content Value :=
  match kind with
  | .point => .points [items content]
  | .lineString => .points ((items content).map items)
  | .polygon => .rings ((items content).map fun ring => (items ring).map items)
  | .multiPoint | .multiLineString | .multiPolygon | .geometryCollection => .members (items content).length

def memberOf : Value → Members
  | .object members => members
  | _ => []

def isContainer : Kind → Bool
  | .point | .lineString | .polygon => false
  | _ => true

/-- The geometry that an item of a container stands for. -/
def childOf (kind : Kind) (item : Value) : Members :=
  match kind with
  | .geometryCollection => memberOf item
  | _ => [("type", .str (childKind kind)), ("coordinates", item)]

/-- The geometries inside a container. -/
def children (kind : Kind) (content : Value) : List Members :=
  if isContainer kind then (items content).map (childOf kind) else []

/-- The nodes of the geometry, coordinates as they are written. -/
def describe (dimensions : Dimensions) : Nat → Members → List (Node Value)
  | 0, _ => []
  | levels + 1, members =>
    match parse members with
    | none => []
    | some (kind, content) =>
      ⟨⟨kind, dimensions = .xyz, false, none⟩, contentOf kind content⟩ ::
        (children kind content).flatMap (describe dimensions levels)

/-! ## The property -/

/-- A node without its SRID, coordinates by their numbers. -/
def shape {α : Type} (number : α → Rat × Bool) (node : Node α) : Node (Rat × Bool) :=
  { node.map number with head := { node.head with srid := none } }

/-- The core accepts the bytes, and they read back as the value that was encoded. -/
structure Reproduced (levels : Nat) (geometry : JsonGeometry) (members : Members)
    (bytes : List UInt8) : Prop where
  accepted : ∀ phase, ∃ inspection,
    verifyValue (valueContract geometry) bytes openBudget openBudget phase = .ok inspection
  read : ∃ nodes, Wkb.read bytes = some nodes ∧
    nodes.map (shape exactBits) =
      (describe geometry.dimensions levels members).map (shape exact) ∧
    nodes.head?.bind (·.head.srid) =
      if geometry.encoding = .ewkb then some (UInt32.ofNat geometry.srid) else none

/-! ## The condition -/

def floats (position : Value) : List UInt64 := (items position).map toFloat

/-- The ring ends on the floats it starts with. -/
def SameFloats (ring : Value) : Prop :=
  (items ring).head?.map floats = (items ring).getLast?.map floats

/-- What the core admits of a value: so many levels, SRIDs on no member, rings that end on the
floats they start with. -/
def Admissible (includeSrid : Bool) : Nat → Bool → Members → Prop
  | 0, _, _ => False
  | levels + 1, outer, members =>
    (includeSrid = true → outer = true) ∧ ∀ kind content, parse members = some (kind, content) →
      (kind = .polygon → ∀ ring ∈ items content, SameFloats ring) ∧
        ∀ child ∈ children kind content, Admissible includeSrid levels false child

def Content.values {α : Type} : Content α → List α
  | .points ps => ps.flatten
  | .rings rs => rs.flatten.flatten
  | .members _ => []

/-- Every coordinate is a float, or an integer that a float equals. -/
def Exact (nodes : List (Node Value)) : Prop :=
  ∀ node ∈ nodes, ∀ value ∈ Content.values node.content, exactBits (toFloat value) = exact value

structure Faithful (levels : Nat) (geometry : JsonGeometry) (members : Members) : Prop where
  admissible : Admissible (geometry.encoding = .ewkb) (maxNesting + 1) true members
  exact : Exact (describe geometry.dimensions levels members)

/-! ## The header -/

/-- What the core reads of a header. -/
structure HeaderIs (kind : Kind) (geometry : JsonGeometry) (includeSrid : Bool)
    (header : Header) : Prop where
  baseType : header.baseType = kind.code
  littleEndian : header.littleEndian = true
  hasZ : header.hasZ = decide (geometry.dimensions = .xyz)
  hasM : header.hasM = false
  srid : header.srid = if includeSrid then some (UInt32.ofNat geometry.srid) else none

/-- The bits of a type code. -/
theorem typeCode_bits (kind : Kind) (dimensions : Dimensions) (includeSrid : Bool) :
    let code := typeCode kind dimensions includeSrid
    let base := code &&& 0x1fffffff
    ¬ base / 1000 > 3 ∧
      ¬ (base / 1000 > 0 ∧ ((code &&& flagZ != 0) = true ∨ (code &&& flagM != 0) = true ∨
        (code &&& flagSrid != 0) = true)) ∧
      (if base / 1000 > 0 then base / 1000 == 1 || base / 1000 == 3 else code &&& flagZ != 0) =
        decide (dimensions = .xyz) ∧
      (if base / 1000 > 0 then decide (base / 1000 ≥ 2) else code &&& flagM != 0) = false ∧
      typeNames.any (·.1 == base % 1000) = true ∧ base % 1000 = kind.code ∧
      (code &&& flagSrid != 0) = includeSrid := by
  cases kind <;> cases dimensions <;> cases includeSrid <;> decide

theorem header_length (kind : Kind) (geometry : JsonGeometry) (includeSrid : Bool) :
    5 ≤ (header kind geometry includeSrid).length := by
  unfold header
  simp

/-- A header is read, but for an SRID on a member. -/
theorem decides_header {kind : Kind} {geometry : JsonGeometry} {includeSrid outer : Bool}
    {r : Reader} {rest : List UInt8}
    (h : Ahead r (header kind geometry includeSrid ++ rest) 1) :
    Decides (r.header outer) (includeSrid = true → outer = true)
      fun read => HeaderIs kind geometry includeSrid read.1 ∧ Ahead read.2 rest 0 := by
  obtain ⟨hthousands, hforms, hz, hm, hknown, hkind, hsrid⟩ :=
    typeCode_bits kind geometry.dimensions includeSrid
  unfold header at h
  rw [List.cons_append, List.cons_append, List.append_assoc] at h
  unfold Reader.header
  have horder : Decides r.byteOrder True fun read => read.1 = true ∧
      Ahead read.2 (leBytes 4 (typeCode kind geometry.dimensions includeSrid).toNat ++
        ((if includeSrid then leBytes 4 geometry.srid else []) ++ rest)) 0 := by
    unfold Reader.byteOrder
    have htake := @Ahead.take _ _ [1] 0 1 h (by decide)
    refine htake.andThen fun read hread => ?_
    obtain ⟨raw, r'⟩ := read
    obtain ⟨rfl, hafter⟩ := hread
    exact decides_ok ⟨rfl, hafter⟩
  refine horder.andThen fun read hread => ?_
  obtain ⟨le, r'⟩ := read
  obtain ⟨rfl, hafter⟩ := hread
  refine (@Ahead.u32 _ _ 0 _ 0 (UInt32.toNat_lt _) hafter (by decide)).andThen
    fun read hread => ?_
  obtain ⟨code, r''⟩ := read
  obtain ⟨hcode, hafter⟩ := hread
  rw [UInt32.ofNat_toNat] at hcode
  dsimp only at hcode hafter ⊢
  subst hcode
  rw [failIf_neg hthousands, ok_bind, failIf_neg hforms, ok_bind, failIf_neg (by simpa using hknown),
    ok_bind, hsrid, hz, hm, hkind]
  cases includeSrid with
  | false => exact (decides_ok ⟨⟨rfl, rfl, rfl, rfl, rfl⟩, hafter⟩).congr (by simp)
  | true =>
    have hword : geometry.srid < 2 ^ 32 := by
      have := geometry.srid_le
      omega
    have hsrid := @Ahead.u32 _ _ 0 _ 0 hword hafter (by decide)
    refine Decides.congr (@Decides.bind _ _ _ _ _ _ True _ _ decides_failIf fun _ _ =>
      hsrid.andThen fun read hread => ?_) ?_
    · obtain ⟨srid, r₃⟩ := read
      obtain ⟨rfl, hafter⟩ := hread
      exact decides_ok ⟨⟨rfl, rfl, rfl, rfl, rfl⟩, hafter⟩
    · simp

/-! ## Positions -/

theorem coordinate_eq_ok {value : Value} {bits : UInt64} (h : coordinate value = .ok bits) :
    bits = toFloat value := by
  cases value with
  | int n =>
    rw [coordinate] at h
    split at h
    next => exact (Except.ok.inj h).symm
    next => cases h
  | float b =>
    rw [coordinate] at h
    split at h
    next => exact (Except.ok.inj h).symm
    next => cases h
  | null | bool b | str s | list values | object members => cases h

theorem position_eq_ok {dimensions : Dimensions} {value : Value} {position : List UInt64}
    (h : JsonInput.position dimensions value = .ok position) :
    position = floats value ∧ position.length = width dimensions := by
  cases value with
  | list coordinates =>
    rw [JsonInput.position] at h
    split at h
    next hlength =>
      obtain ⟨g, hg, rfl⟩ := exists_map_of_mapM h
      refine ⟨List.map_congr_left fun value hvalue => coordinate_eq_ok (hg value hvalue), ?_⟩
      rw [List.length_map, hlength]
    next => cases h
  | null | bool b | int n | float b | str s | object members => cases h

theorem points_eq_ok {dimensions : Dimensions} {minimum : Nat} {value : Value}
    {points : List (List UInt64)} (h : JsonInput.points dimensions minimum value = .ok points) :
    points = (items value).map floats ∧ minimum ≤ points.length ∧
      ∀ point ∈ points, point.length = width dimensions := by
  cases value with
  | list values =>
    rw [JsonInput.points] at h
    split at h
    next => cases h
    next hlength =>
      obtain ⟨g, hg, rfl⟩ := exists_map_of_mapM h
      refine ⟨List.map_congr_left fun value hvalue => (position_eq_ok (hg value hvalue)).1, ?_, ?_⟩
      · rw [List.length_map]
        exact Nat.le_of_not_lt hlength
      · intro point hpoint
        obtain ⟨value, hvalue, rfl⟩ := List.mem_map.1 hpoint
        exact (position_eq_ok (hg value hvalue)).2
  | null | bool b | int n | float b | str s | object members => cases h

theorem packCount_eq_ok {count : Nat} {bytes : List UInt8} (h : packCount count = .ok bytes) :
    count < 2 ^ 32 ∧ bytes = leBytes 4 count := by
  unfold packCount at h
  split at h
  next hcount => exact ⟨hcount, (Except.ok.inj h).symm⟩
  next => cases h

/-- The bytes of a position. -/
def packPoint (point : List UInt64) : List UInt8 := point.flatMap fun bits => leBytes 8 bits.toNat

theorem packPoints_eq (points : List (List UInt64)) : packPoints points = points.flatMap packPoint :=
  rfl

theorem length_packPoint (point : List UInt64) : (packPoint point).length = 8 * point.length := by
  unfold packPoint
  rw [List.length_flatMap]
  simp [Nat.mul_comm]

theorem length_packPoints {points : List (List UInt64)} {width : Nat}
    (h : ∀ point ∈ points, point.length = width) :
    (packPoints points).length = points.length * (8 * width) := by
  rw [packPoints_eq]
  induction points with
  | nil => exact (Nat.zero_mul _).symm
  | cons point points ih =>
    rw [List.flatMap_cons, List.length_append, length_packPoint, h point List.mem_cons_self,
      ih fun point hpoint => h point (List.mem_cons_of_mem _ hpoint), List.length_cons,
      Nat.add_comm, @Nat.succ_mul points.length]

theorem packPoint_inj {p q : List UInt64} (hlength : p.length = q.length)
    (h : packPoint p = packPoint q) : p = q := by
  induction p generalizing q with
  | nil => exact (List.eq_nil_of_length_eq_zero hlength.symm).symm
  | cons a p ih =>
    cases q with
    | nil => cases hlength
    | cons b q =>
      unfold packPoint at h
      rw [List.flatMap_cons, List.flatMap_cons] at h
      obtain ⟨hfirst, hmore⟩ := List.append_inj h (by rw [length_leBytes, length_leBytes])
      have hword := (leBytes_inj (n := 8) a.toNat_lt b.toNat_lt).1 hfirst
      rw [UInt64.toNat_inj.1 hword, ih (Nat.succ.inj hlength) hmore]

theorem readBack_position {width : Nat} {point : List UInt64} (h : point.length = width) :
    ReadBack (Wkb.items (number true) width) (packPoint point) point := by
  have hread := @readBack_items _ (number true) (fun bits : UInt64 => leBytes 8 bits.toNat) point
    fun bits _ => readBack_number bits
  rw [h] at hread
  exact hread

/-! ## Rings -/

/-- The first and the last position have the same bytes where they have the same floats. -/
theorem sameEnds_iff {points : List (List UInt64)} {width : Nat} (hne : points ≠ [])
    (h : ∀ point ∈ points, point.length = width) :
    Ahead.SameEnds (8 * width) (packPoints points) ↔ points.head? = points.getLast? := by
  have hhead := h _ (List.head_mem hne)
  have hlast := h _ (List.getLast_mem hne)
  have hfirst : (packPoints points).take (8 * width) = packPoint (points.head hne) := by
    conv_lhs => rw [← List.cons_head_tail hne]
    rw [packPoints_eq, List.flatMap_cons, ← hhead, ← length_packPoint, List.take_left]
  have hend : (packPoints points).drop ((packPoints points).length - 8 * width) =
      packPoint (points.getLast hne) := by
    conv_lhs => rw [← List.dropLast_append_getLast hne]
    rw [packPoints_eq, List.flatMap_append, List.flatMap_singleton, List.length_append,
      length_packPoint, hlast, Nat.add_sub_cancel, List.drop_left]
  unfold Ahead.SameEnds
  rw [hfirst, hend, List.head?_eq_some_head hne, List.getLast?_eq_some_getLast hne, Option.some_inj]
  exact ⟨packPoint_inj (hhead.trans hlast.symm), fun heq => by rw [heq]⟩

/-- A ring as it is packed. -/
def packRing (ring : Value) : List UInt8 := packPoints ((items ring).map floats)

/-- The points of a ring that is encoded. -/
structure RingPoints (dimensions : Dimensions) (ring : Value) : Prop where
  four : 4 ≤ ((items ring).map floats).length
  word : ((items ring).map floats).length < 2 ^ 32
  width : ∀ point ∈ (items ring).map floats, point.length = width dimensions

theorem width_pos (dimensions : Dimensions) : 0 < width dimensions := by
  cases dimensions <;> decide

theorem RingPoints.count {dimensions : Dimensions} {ring : Value} (h : RingPoints dimensions ring) :
    (packRing ring).length / (8 * JsonInput.width dimensions) = ((items ring).map floats).length := by
  unfold packRing
  rw [length_packPoints h.width]
  exact Nat.mul_div_cancel _ (Nat.mul_pos (by decide) (width_pos dimensions))

theorem RingPoints.ringBytes {dimensions : Dimensions} {ring : Value} (h : RingPoints dimensions ring) :
    Ahead.RingBytes (8 * JsonInput.width dimensions) (packRing ring) := by
  refine ⟨?_, ?_, ?_⟩
  · rw [h.count]
    exact length_packPoints h.width
  · rw [h.count]
    exact h.four
  · rw [h.count]
    exact h.word

theorem RingPoints.sameEnds_iff {dimensions : Dimensions} {ring : Value}
    (h : RingPoints dimensions ring) :
    Ahead.SameEnds (8 * JsonInput.width dimensions) (packRing ring) ↔ SameFloats ring := by
  have hne : (items ring).map floats ≠ [] := by
    intro hnil
    have := h.four
    rw [hnil] at this
    exact absurd this (by decide)
  unfold packRing SameFloats
  rw [JsonInput.sameEnds_iff hne h.width, List.head?_map, List.getLast?_map]

theorem ringBytes_eq_ok {dimensions : Dimensions} {value : Value} {bytes : List UInt8}
    (h : ringBytes dimensions value = .ok bytes) :
    RingPoints dimensions value ∧
      bytes = Ahead.ringBlock (8 * JsonInput.width dimensions) (packRing value) := by
  unfold ringBytes at h
  obtain ⟨ring, hring, h⟩ := bind_eq_ok.1 h
  obtain ⟨count, hcount, h⟩ := bind_eq_ok.1 h
  cases h
  unfold JsonInput.ring at hring
  obtain ⟨points, hpoints, hring⟩ := bind_eq_ok.1 hring
  obtain ⟨⟨⟩, -, hring⟩ := bind_eq_ok.1 hring
  cases hring
  obtain ⟨rfl, hfour, hwidth⟩ := points_eq_ok hpoints
  obtain ⟨hword, rfl⟩ := packCount_eq_ok hcount
  have hpoints : RingPoints dimensions value := ⟨hfour, hword, hwidth⟩
  refine ⟨hpoints, ?_⟩
  unfold Ahead.ringBlock
  rw [hpoints.count]
  rfl

/-! ## What follows a header -/

/-- The content as floats. -/
def floatContent (kind : Kind) (content : Value) : Content UInt64 := (contentOf kind content).map toFloat

theorem floatContent_lineString (content : Value) :
    floatContent .lineString content = .points ((items content).map floats) := by
  show Content.points _ = _
  rw [List.map_map]
  rfl

theorem floatContent_polygon (content : Value) :
    floatContent .polygon content =
      .rings ((items content).map fun ring => (items ring).map floats) := by
  show Content.rings _ = _
  rw [List.map_map]
  congr 1
  refine List.map_congr_left fun ring _ => ?_
  exact List.map_map

/-- The bytes after the header of a geometry without members. -/
inductive Body (dimensions : Dimensions) : Kind → Value → List UInt8 → Prop
  | point {content : Value} (hwidth : (floats content).length = width dimensions) :
      Body dimensions .point content (packPoints [floats content])
  | lineString {content : Value} (htwo : 2 ≤ ((items content).map floats).length)
      (hword : ((items content).map floats).length < 2 ^ 32)
      (hwidth : ∀ point ∈ (items content).map floats, point.length = width dimensions) :
      Body dimensions .lineString content
        (leBytes 4 ((items content).map floats).length ++ packPoints ((items content).map floats))
  | polygon {content : Value} (hword : (items content).length < 2 ^ 32)
      (hrings : ∀ ring ∈ items content, RingPoints dimensions ring) :
      Body dimensions .polygon content
        (leBytes 4 (items content).length ++ (items content).flatMap fun ring =>
          Ahead.ringBlock (8 * width dimensions) (packRing ring))

theorem pointBody_eq_ok {dimensions : Dimensions} {content : Value} {bytes : List UInt8}
    (h : pointBody dimensions content = .ok bytes) : Body dimensions .point content bytes := by
  unfold pointBody at h
  obtain ⟨point, hpoint, h⟩ := bind_eq_ok.1 h
  cases h
  obtain ⟨rfl, hwidth⟩ := position_eq_ok hpoint
  exact .point hwidth

theorem lineBody_eq_ok {dimensions : Dimensions} {content : Value} {bytes : List UInt8}
    (h : lineBody dimensions content = .ok bytes) : Body dimensions .lineString content bytes := by
  unfold lineBody at h
  obtain ⟨points, hpoints, h⟩ := bind_eq_ok.1 h
  obtain ⟨count, hcount, h⟩ := bind_eq_ok.1 h
  cases h
  obtain ⟨rfl, htwo, hwidth⟩ := points_eq_ok hpoints
  obtain ⟨hword, rfl⟩ := packCount_eq_ok hcount
  exact .lineString htwo hword hwidth

theorem polygonBody_eq_ok {dimensions : Dimensions} {content : Value} {bytes : List UInt8}
    (h : polygonBody dimensions content = .ok bytes) : Body dimensions .polygon content bytes := by
  cases content with
  | list rings =>
    rw [polygonBody] at h
    obtain ⟨count, hcount, h⟩ := bind_eq_ok.1 h
    obtain ⟨blocks, hblocks, h⟩ := bind_eq_ok.1 h
    cases h
    obtain ⟨hword, rfl⟩ := packCount_eq_ok hcount
    obtain ⟨g, hg, rfl⟩ := exists_map_of_mapM hblocks
    have hflat : (rings.map g).flatten = rings.flatMap fun ring =>
        Ahead.ringBlock (8 * width dimensions) (packRing ring) := by
      rw [List.flatMap_def]
      congr 1
      exact List.map_congr_left fun ring hring => (ringBytes_eq_ok (hg ring hring)).2
    rw [hflat]
    exact @Body.polygon _ (.list rings) hword fun ring hring => (ringBytes_eq_ok (hg ring hring)).1
  | null | bool b | int n | float b | str s | object members => cases h

/-- The bytes after the header of a container: its items, each encoded. -/
structure Container (encode : Members → Fallible (List UInt8)) (kind : Kind) (content : Value)
    (encoded : Value → List UInt8) : Prop where
  word : (items content).length < 2 ^ 32
  items : ∀ item ∈ items content, encode (childOf kind item) = .ok (encoded item)

theorem containerBody_eq_ok {encode : Members → Fallible (List UInt8)} {kind : Kind}
    {content : Value} {bytes : List UInt8} {member : Value → Fallible (List UInt8)}
    {notItems : Failure} (h : containerBody member notItems content = .ok bytes)
    (hmember : ∀ item b, member item = .ok b → encode (childOf kind item) = .ok b) :
    ∃ encoded, Container encode kind content encoded ∧
      bytes = leBytes 4 (items content).length ++ (items content).flatMap encoded := by
  cases content with
  | list values =>
    rw [containerBody] at h
    obtain ⟨count, hcount, h⟩ := bind_eq_ok.1 h
    obtain ⟨blocks, hblocks, h⟩ := bind_eq_ok.1 h
    cases h
    obtain ⟨hword, rfl⟩ := packCount_eq_ok hcount
    obtain ⟨g, hg, rfl⟩ := exists_map_of_mapM hblocks
    refine ⟨g, ⟨hword, fun item hitem => hmember item _ (hg item hitem)⟩, ?_⟩
    rw [← List.flatMap_def]
    rfl
  | null | bool b | int n | float b | str s | object members => cases h

theorem body_eq_ok {encode : Members → Fallible (List UInt8)} {dimensions : Dimensions}
    {kind : Kind} {content : Value} {bytes : List UInt8}
    (h : body encode dimensions kind content = .ok bytes) :
    (isContainer kind = false ∧ Body dimensions kind content bytes) ∨
      (isContainer kind = true ∧ ∃ encoded, Container encode kind content encoded ∧
        bytes = leBytes 4 (items content).length ++ (items content).flatMap encoded) := by
  cases kind with
  | point => exact .inl ⟨rfl, pointBody_eq_ok h⟩
  | lineString => exact .inl ⟨rfl, lineBody_eq_ok h⟩
  | polygon => exact .inl ⟨rfl, polygonBody_eq_ok h⟩
  | multiPoint | multiLineString | multiPolygon =>
    exact .inr ⟨rfl, containerBody_eq_ok h fun item b hb => hb⟩
  | geometryCollection =>
    refine .inr ⟨rfl, containerBody_eq_ok h fun item b hb => ?_⟩
    cases item with
    | object members => exact hb
    | null | bool b | int n | float b | str s | list values => cases hb

/-! ## Reading back -/

def headOf (kind : Kind) (geometry : JsonGeometry) (includeSrid : Bool) : Head :=
  ⟨kind, geometry.dimensions = .xyz, false,
    if includeSrid then some (UInt32.ofNat geometry.srid) else none⟩

theorem headOf_width (kind : Kind) (geometry : JsonGeometry) (includeSrid : Bool) :
    (headOf kind geometry includeSrid).width = width geometry.dimensions := by
  unfold headOf Head.width
  cases geometry.dimensions <;> rfl

theorem ofCode_typeCode (kind : Kind) (dimensions : Dimensions) (includeSrid : Bool) :
    ofCode (typeCode kind dimensions includeSrid) =
      some (kind, decide (dimensions = .xyz), false, includeSrid) := by
  cases kind <;> cases dimensions <;> cases includeSrid <;> decide

theorem order_littleEndian (rest : List UInt8) : order (1 :: rest) = some (true, rest) := rfl

theorem readHead_header (kind : Kind) (geometry : JsonGeometry) (includeSrid : Bool)
    (rest : List UInt8) :
    readHead (header kind geometry includeSrid ++ rest) =
      some (true, headOf kind geometry includeSrid, rest) := by
  have hcode := fun rest => readBack_word (typeCode kind geometry.dimensions includeSrid) rest
  unfold header readHead
  rw [List.cons_append, List.cons_append, List.append_assoc, order_littleEndian]
  simp only [Option.bind_eq_bind, Option.bind_some, hcode, ofCode_typeCode]
  cases includeSrid with
  | false => rfl
  | true =>
    have hsrid : (UInt32.ofNat geometry.srid).toNat = geometry.srid := by
      have := geometry.srid_le
      rw [UInt32.toNat_ofNat']
      omega
    have hword := readBack_word (UInt32.ofNat geometry.srid) rest
    rw [hsrid] at hword
    simp only [if_true, hword, Option.bind_some]
    rfl

theorem readBack_points {width : Nat} {points : List (List UInt64)}
    (h : ∀ point ∈ points, point.length = width) (hword : points.length < 2 ^ 32) :
    ReadBack (counted true (Wkb.items (number true) width))
      (leBytes 4 points.length ++ packPoints points) points :=
  readBack_counted hword fun point hpoint => readBack_position (h point hpoint)

theorem readBack_body {geometry : JsonGeometry} {includeSrid : Bool} {kind : Kind}
    {content : Value} {bytes : List UInt8} (h : Body geometry.dimensions kind content bytes) :
    ReadBack (readContent true (headOf kind geometry includeSrid)) bytes
      (floatContent kind content) := by
  intro rest
  unfold readContent
  rw [headOf_width]
  cases h with
  | point hwidth =>
    have hread := @readBack_items _ _ packPoint [floats content]
      (fun point hpoint => by
        rw [List.mem_singleton.1 hpoint]
        exact readBack_position hwidth) rest
    show (Wkb.items _ 1 ([floats content].flatMap packPoint ++ rest)).map _ = _
    rw [List.length_singleton] at hread
    rw [hread]
    rfl
  | lineString htwo hword hwidth =>
    show (counted _ _ (_ ++ rest)).map _ = _
    rw [readBack_points hwidth hword rest, floatContent_lineString]
    rfl
  | polygon hword hrings =>
    have hpoints : ∀ points ∈ (items content).map fun ring => (items ring).map floats,
        ReadBack (counted true (Wkb.items (number true) (width geometry.dimensions)))
          (leBytes 4 points.length ++ packPoints points) points := by
      intro points hpoints
      obtain ⟨ring, hring, rfl⟩ := List.mem_map.1 hpoints
      exact readBack_points (hrings ring hring).width (hrings ring hring).word
    have hread := readBack_counted (by rw [List.length_map]; exact hword) hpoints rest
    have hblocks : ((items content).map fun ring => (items ring).map floats).flatMap
        (fun points => leBytes 4 points.length ++ packPoints points) =
        (items content).flatMap fun ring =>
          Ahead.ringBlock (8 * width geometry.dimensions) (packRing ring) := by
      rw [List.flatMap_map, List.flatMap_def, List.flatMap_def]
      congr 1
      refine List.map_congr_left fun ring hring => ?_
      unfold Ahead.ringBlock
      rw [(hrings ring hring).count]
      rfl
    rw [hblocks, List.length_map] at hread
    show (counted _ _ (_ ++ rest)).map _ = _
    rw [hread, floatContent_polygon]
    rfl

/-! ## Accepting a geometry without members -/

theorem le_length_flatMap {α : Type} {as : List α} {f : α → List UInt8} {size : Nat}
    (h : ∀ a ∈ as, size ≤ (f a).length) (rest : List UInt8) :
    as.length * size ≤ (as.flatMap f ++ rest).length := by
  have hsum := List.card_nsmul_le_sum (as.map fun a => (f a).length) size
    (List.forall_mem_map.2 h)
  rw [List.length_map, Nat.nsmul_eq_mul] at hsum
  rw [List.length_append, List.length_flatMap]
  exact Nat.le_add_right_of_le hsum

theorem HeaderIs.width {kind : Kind} {geometry : JsonGeometry} {includeSrid : Bool}
    {header : Header} (h : HeaderIs kind geometry includeSrid header) :
    header.width = 8 * width geometry.dimensions := by
  unfold Header.width
  rw [h.hasZ, h.hasM]
  cases geometry.dimensions <;> rfl

theorem HeaderIs.isContainer {kind : Kind} {geometry : JsonGeometry} {includeSrid : Bool}
    {header : Header} (h : HeaderIs kind geometry includeSrid header) :
    header.isContainer = JsonInput.isContainer kind := by
  unfold Header.isContainer
  rw [h.baseType]
  cases kind <;> decide

theorem decides_coordinates {kind : Kind} {geometry : JsonGeometry} {includeSrid : Bool}
    {content : Value} {bytes rest : List UInt8} {header : Header} {r : Reader}
    (hbody : Body geometry.dimensions kind content bytes)
    (hheader : HeaderIs kind geometry includeSrid header) (h : Ahead r (bytes ++ rest) 0) :
    Decides (r.coordinates header) (kind = .polygon → ∀ ring ∈ items content, SameFloats ring)
      fun r' => Ahead r' rest 0 := by
  have hpos : 0 < 8 * width geometry.dimensions := Nat.mul_pos (by decide) (width_pos _)
  unfold Reader.coordinates
  rw [hheader.baseType, hheader.width, hheader.littleEndian]
  cases hbody with
  | point hwidth =>
    have hlength := @length_packPoints [floats content] (width geometry.dimensions)
      fun point hpoint => by
        rw [List.mem_singleton.1 hpoint, hwidth]
    have hdecides : Decides (r.points 1 (8 * width geometry.dimensions) >>= fun read => .ok read.2)
        True fun r' => Ahead r' rest 0 :=
      (h.points hlength hpos (by simp)).andThen fun read hread => decides_ok hread.2
    exact hdecides.congr (by simp)
  | lineString htwo hword hwidth =>
    have hlength := length_packPoints hwidth
    have hcount : (UInt32.ofNat ((items content).map floats).length).toNat =
        ((items content).map floats).length := by
      rw [UInt32.toNat_ofNat']
      exact Nat.mod_eq_of_lt hword
    rw [List.append_assoc] at h
    refine @Decides.congr _ _ _ True _ _ ?_ (by simp)
    show Decides (r.u32 true >>= _) _ _
    refine (h.u32 hword (Nat.zero_le _)).andThen fun read hread => ?_
    obtain ⟨count, r'⟩ := read
    obtain ⟨rfl, hafter⟩ := hread
    refine (hafter.points (by rw [hcount]; exact hlength) hpos ?_).andThen fun read hread => ?_
    · rw [hcount, Nat.zero_add]
      exact Nat.le_of_lt (Nat.lt_trans hword (by decide))
    obtain ⟨_, r''⟩ := read
    have hone : ¬ UInt32.ofNat ((items content).map floats).length = 1 := by
      intro hone
      rw [hone] at hcount
      have : (1 : UInt32).toNat = 1 := rfl
      omega
    show Decides (failIf _ _ >>= _) _ _
    rw [failIf_neg hone, ok_bind]
    exact decides_ok hread.2
  | polygon hword hrings =>
    have hsize : (items content).length * 4 ≤
        ((items content).flatMap (fun ring =>
          Ahead.ringBlock (8 * width geometry.dimensions) (packRing ring)) ++ rest).length := by
      refine le_length_flatMap (fun ring _ => ?_) rest
      unfold Ahead.ringBlock
      rw [List.length_append, length_leBytes]
      exact Nat.le_add_right _ _
    rw [List.append_assoc] at h
    show Decides (r.count true 4 >>= _) _ _
    refine (h.count hword (Nat.zero_le _) hsize).andThen fun read hread => ?_
    obtain ⟨count, r'⟩ := read
    obtain ⟨rfl, hafter⟩ := hread
    have hkind : ¬ (Kind.polygon.code = 17 ∧ (items content).length > 1) := fun h =>
      absurd h.1 (by decide)
    show Decides (failIf (Kind.polygon.code = 17 ∧ (items content).length > 1) _ >>= _) _ _
    rw [failIf_neg hkind, ok_bind]
    refine (hafter.addComponents ?_).andThen fun r'' hr'' => ?_
    · rw [Nat.zero_add]
      exact Nat.le_of_lt (Nat.lt_trans hword (by decide))
    have hraws : ∀ raw ∈ (items content).map packRing,
        Ahead.RingBytes (8 * width geometry.dimensions) raw := by
      intro raw hraw
      obtain ⟨ring, hring, rfl⟩ := List.mem_map.1 hraw
      exact (hrings ring hring).ringBytes
    have hblocks : Ahead r'' (((items content).map packRing).flatMap
        (Ahead.ringBlock (8 * width geometry.dimensions)) ++ rest)
        (0 + ((items content).map packRing).length) := by
      rw [List.flatMap_map, List.length_map]
      exact hr''
    have hdecides := hblocks.rings hpos hraws (by rw [List.length_map]; omega)
    rw [List.length_map] at hdecides
    refine hdecides.congr ?_
    rw [List.forall_mem_map]
    refine ⟨fun hsame ring hring => ?_, fun hsame _ ring hring => ?_⟩
    · exact (hrings ring hring).sameEnds_iff.2 (hsame rfl ring hring)
    · exact (hrings ring hring).sameEnds_iff.1 (hsame ring hring)

/-! ## Every level -/

theorem parse_multi {child : String} {kind : Kind} (item : Value)
    (h : kindOf (some (.str child)) = some kind) (hkind : kind ≠ .geometryCollection) :
    parse [("type", .str child), ("coordinates", item)] = some (kind, item) := by
  have htype : get [("type", .str child), ("coordinates", item)] "type" = some (.str child) := by
    simp [get]
  have hcontent : get [("type", .str child), ("coordinates", item)] (coordinateMember kind) =
      some item := by
    unfold coordinateMember
    rw [if_neg hkind]
    simp [get]
  unfold parse
  rw [htype, h]
  show (get _ (coordinateMember kind) >>= _) = _
  rw [hcontent]
  rfl

/-- A child has a type that its container admits. -/
theorem admitted_childOf {kind child : Kind} {item content : Value}
    (h : parse (childOf kind item) = some (child, content)) :
    isContainer kind = true → (admittedMembers kind.code).all (·.contains child.code) = true := by
  intro hcontainer
  cases kind with
  | point | lineString | polygon => cases hcontainer
  | multiPoint =>
    have hchild : parse (childOf .multiPoint item) = some (.point, item) :=
      parse_multi item (by decide +kernel) (by decide)
    cases hchild.symm.trans h
    rfl
  | multiLineString =>
    have hchild : parse (childOf .multiLineString item) = some (.lineString, item) :=
      parse_multi item (by decide +kernel) (by decide)
    cases hchild.symm.trans h
    rfl
  | multiPolygon =>
    have hchild : parse (childOf .multiPolygon item) = some (.polygon, item) :=
      parse_multi item (by decide +kernel) (by decide)
    cases hchild.symm.trans h
    rfl
  | geometryCollection => cases child <;> decide

theorem parse_eq_some {members : Members} {kind : Kind} {content : Value}
    (hkind : kindOf (get members "type") = some kind)
    (hcontent : get members (coordinateMember kind) = some content) :
    parse members = some (kind, content) := by
  unfold parse
  rw [hkind]
  show (get members (coordinateMember kind) >>= _) = _
  rw [hcontent]
  rfl

theorem describe_succ {dimensions : Dimensions} {members : Members} {kind : Kind} {content : Value}
    (levels : Nat) (h : parse members = some (kind, content)) :
    describe dimensions (levels + 1) members =
      ⟨⟨kind, dimensions = .xyz, false, none⟩, contentOf kind content⟩ ::
        (children kind content).flatMap (describe dimensions levels) := by
  rw [describe, h]

theorem children_body {kind : Kind} (content : Value) (h : isContainer kind = false) :
    children kind content = [] := by
  unfold children
  rw [h]
  rfl

theorem children_container {kind : Kind} (content : Value) (h : isContainer kind = true) :
    children kind content = (items content).map (childOf kind) := by
  unfold children
  rw [h]
  rfl

theorem readBack_node {geometry : JsonGeometry} {includeSrid : Bool} {kind : Kind}
    {content : Content UInt64} {raw : List UInt8}
    (h : ReadBack (readContent true (headOf kind geometry includeSrid)) raw content) :
    ReadBack readNode (header kind geometry includeSrid ++ raw)
      ⟨headOf kind geometry includeSrid, content⟩ := by
  intro rest
  unfold readNode
  rw [List.append_assoc, readHead_header]
  show (readContent true (headOf kind geometry includeSrid) _ >>= _) = _
  rw [h rest]
  rfl

theorem readBack_count {head : Head} {count : Nat} (hcount : count < 2 ^ 32)
    (h : isContainer head.kind = true) :
    ReadBack (readContent true head) (leBytes 4 count) (.members count) := by
  intro rest
  have hword : (UInt32.ofNat count).toNat = count := by
    rw [UInt32.toNat_ofNat']
    exact Nat.mod_eq_of_lt hcount
  have hread := readBack_word (UInt32.ofNat count) rest
  rw [hword] at hread
  unfold readContent
  cases hkind : head.kind with
  | point | lineString | polygon =>
    rw [hkind] at h
    cases h
  | multiPoint | multiLineString | multiPolygon | geometryCollection =>
    show (word true _).map _ = _
    rw [hread]
    show some (Content.members (UInt32.ofNat count).toNat, rest) = _
    rw [hword]

theorem header_ne_nil (kind : Kind) (geometry : JsonGeometry) (includeSrid : Bool) :
    header kind geometry includeSrid ≠ [] := by
  unfold header
  exact List.cons_ne_nil _ _

/-- The nodes of a geometry as they are encoded. -/
def encodedNode (geometry : JsonGeometry) (includeSrid : Bool) (node : Node Value) : Node UInt64 :=
  ⟨headOf node.head.kind geometry includeSrid, node.content.map toFloat⟩

theorem whole_body {geometry : JsonGeometry} {includeSrid : Bool} {levels : Nat} {kind : Kind}
    {members : Members} {content : Value} {raw : List UInt8}
    (hparse : parse members = some (kind, content)) (hkind : isContainer kind = false)
    (hbody : Body geometry.dimensions kind content raw) :
    Whole (header kind geometry includeSrid ++ raw)
      ((describe geometry.dimensions (levels + 1) members).map (encodedNode geometry includeSrid)) := by
  have hread : ReadBack readNode (header kind geometry includeSrid ++ raw)
      ⟨headOf kind geometry includeSrid, floatContent kind content⟩ :=
    readBack_node (readBack_body hbody)
  have hmembers : WholeAll (Node.members
      ⟨headOf kind geometry includeSrid, floatContent kind content⟩) [] [] := by
    cases hbody <;> exact wholeAll_nil
  have hwhole := whole_node (by simp [header_ne_nil]) hread hmembers
  rw [List.append_nil] at hwhole
  rw [describe_succ levels hparse, children_body content hkind]
  exact hwhole

theorem whole_container {geometry : JsonGeometry} {includeSrid : Bool} {levels : Nat} {kind : Kind}
    {members : Members} {content : Value} {encoded : Value → List UInt8}
    (hparse : parse members = some (kind, content)) (hkind : isContainer kind = true)
    (hword : (items content).length < 2 ^ 32)
    (hitems : ∀ item ∈ items content, Whole (encoded item)
      ((describe geometry.dimensions levels (childOf kind item)).map
        (encodedNode geometry includeSrid))) :
    Whole (header kind geometry includeSrid ++
        (leBytes 4 (items content).length ++ (items content).flatMap encoded))
      ((describe geometry.dimensions (levels + 1) members).map (encodedNode geometry includeSrid)) := by
  have hread : ReadBack readNode (header kind geometry includeSrid ++
      leBytes 4 (items content).length)
      ⟨headOf kind geometry includeSrid, .members (items content).length⟩ :=
    readBack_node (readBack_count hword hkind)
  have hwhole := whole_node (by simp [header_ne_nil]) hread (wholeAll_flatMap hitems)
  rw [List.append_assoc] at hwhole
  have hcontent : contentOf kind content = .members (items content).length := by
    cases kind <;> first | rfl | cases hkind
  rw [describe_succ levels hparse, children_container content hkind, List.flatMap_map,
    List.map_cons, List.map_flatMap, hcontent]
  exact hwhole

/-- What the core makes of an encoded geometry, at any depth. -/
def Decided (geometry : JsonGeometry) (includeSrid : Bool) (members : Members)
    (bytes : List UInt8) : Prop :=
  ∀ nesting depth outer r rest, Ahead r (bytes ++ rest) 0 → depth + nesting = maxNesting + 1 →
    Decides (Reader.geometryWithin nesting r depth outer) (Admissible includeSrid nesting outer members)
      fun read => (∀ kind content, parse members = some (kind, content) →
        HeaderIs kind geometry includeSrid read.1) ∧ Ahead read.2 rest 0

/-- What an encoding reads back as, and what the core makes of it. -/
structure Encoded (geometry : JsonGeometry) (includeSrid : Bool) (levels : Nat) (members : Members)
    (bytes : List UInt8) : Prop where
  parsed : ∃ kind content, parse members = some (kind, content)
  header : 5 ≤ bytes.length
  whole : Whole bytes
    ((describe geometry.dimensions levels members).map (encodedNode geometry includeSrid))
  decided : Decided geometry includeSrid members bytes

theorem admissible_succ {includeSrid outer : Bool} {nesting : Nat} {members : Members} {kind : Kind}
    {content : Value} (hparse : parse members = some (kind, content)) :
    Admissible includeSrid (nesting + 1) outer members ↔
      (includeSrid = true → outer = true) ∧
        (kind = .polygon → ∀ ring ∈ items content, SameFloats ring) ∧
        ∀ child ∈ children kind content, Admissible includeSrid nesting false child := by
  rw [Admissible]
  refine and_congr_right fun _ => ⟨fun h => h kind content hparse, ?_⟩
  intro h kind' content' hparse'
  cases hparse.symm.trans hparse'
  exact h

/-- A geometry is entered, whatever follows its header. -/
theorem decides_enter {kind : Kind} {geometry : JsonGeometry} {includeSrid outer : Bool}
    {r : Reader} {rest : List UInt8} {depth : Nat} (hdepth : depth ≤ maxNesting)
    (h : Ahead r (header kind geometry includeSrid ++ rest) 0) :
    Decides (r.enter depth outer) (includeSrid = true → outer = true)
      fun read => HeaderIs kind geometry includeSrid read.1 ∧ Ahead read.2 rest 0 :=
  Ahead.enter hdepth (fun _ hr => decides_header hr) h

theorem decided_zero {includeSrid outer : Bool} {members : Members} {r : Reader} {depth : Nat}
    {P : Header × Reader → Prop} :
    Decides (Reader.geometryWithin 0 r depth outer) (Admissible includeSrid 0 outer members) P :=
  ⟨False.elim, fun _ => ⟨_, rfl⟩⟩

theorem decides_body {geometry : JsonGeometry} {includeSrid : Bool} {kind : Kind}
    {members : Members} {content : Value} {raw : List UInt8}
    (hparse : parse members = some (kind, content)) (hkind : isContainer kind = false)
    (hbody : Body geometry.dimensions kind content raw) :
    Decided geometry includeSrid members (header kind geometry includeSrid ++ raw) := by
  intro nesting depth outer r rest h hdepth
  cases nesting with
  | zero => exact decided_zero
  | succ nesting =>
    rw [List.append_assoc] at h
    rw [Reader.geometryWithin, admissible_succ hparse]
    refine (decides_enter (by omega) h).bind fun read hread => ?_
    obtain ⟨header, r'⟩ := read
    obtain ⟨hheader, hafter⟩ := hread
    dsimp only at hheader hafter ⊢
    rw [hheader.isContainer, hkind, children_body content hkind]
    refine Decides.congr ((decides_coordinates hbody hheader hafter).bind fun r'' hr'' => ?_)
      (and_congr_right fun _ => iff_true_intro fun _ hchild => (by cases hchild))
    refine decides_ok ⟨fun kind' content' hparse' => ?_, hr''⟩
    cases hparse.symm.trans hparse'
    exact hheader

theorem HeaderIs.admitted {kind child : Kind} {geometry : JsonGeometry} {includeSrid : Bool}
    {header member : Header} {item content : Value} (h : HeaderIs kind geometry includeSrid header)
    (hkind : JsonInput.isContainer kind = true)
    (hparse : parse (childOf kind item) = some (child, content)) (hmember : HeaderIs child geometry includeSrid member) : Ahead.Admitted header member := by
  refine ⟨?_, ?_⟩
  · rw [h.baseType, hmember.baseType]
    exact admitted_childOf hparse hkind
  · rw [h.hasZ, h.hasM, hmember.hasZ, hmember.hasM]

theorem decides_container {geometry : JsonGeometry} {includeSrid : Bool} {kind : Kind}
    {members : Members} {content : Value} {levels : Nat} {encoded : Value → List UInt8}
    (hparse : parse members = some (kind, content)) (hkind : isContainer kind = true)
    (hword : (items content).length < 2 ^ 32)
    (hitems : ∀ item ∈ items content,
      Encoded geometry includeSrid levels (childOf kind item) (encoded item)) :
    Decided geometry includeSrid members (header kind geometry includeSrid ++
      (leBytes 4 (items content).length ++ (items content).flatMap encoded)) := by
  intro nesting depth outer r rest h hdepth
  cases nesting with
  | zero => exact decided_zero
  | succ nesting =>
    rw [List.append_assoc, List.append_assoc] at h
    rw [Reader.geometryWithin, admissible_succ hparse]
    refine (decides_enter (by omega) h).bind fun read hread => ?_
    obtain ⟨header, r'⟩ := read
    obtain ⟨hheader, hafter⟩ := hread
    dsimp only at hheader hafter ⊢
    rw [hheader.isContainer, hkind, hheader.littleEndian, children_container content hkind,
      List.forall_mem_map]
    have hsize := le_length_flatMap (fun item hitem => (hitems item hitem).header) rest
    have hpolygon : (kind = .polygon → ∀ ring ∈ items content, SameFloats ring) ↔ True :=
      iff_true_intro fun hpolygon => by
        rw [hpolygon] at hkind
        cases hkind
    rw [hpolygon, true_and]
    show Decides (r'.count true 5 >>= _) _ _
    refine (hafter.count hword (Nat.zero_le _) hsize).andThen fun read hread => ?_
    obtain ⟨count, r''⟩ := read
    obtain ⟨rfl, hcounted⟩ := hread
    have hmembers : Decides
        (Reader.members (fun r => Reader.geometryWithin nesting r (depth + 1) false) header
          (items content).length r'')
        (∀ item ∈ items content, Admissible includeSrid nesting false (childOf kind item))
        fun r => Ahead r rest 0 := by
      refine Ahead.members (fun item hitem r rest hr => ?_) hcounted
      obtain ⟨child, childContent, hchild⟩ := (hitems item hitem).parsed
      refine ((hitems item hitem).decided nesting (depth + 1) false r rest hr (by omega)).imp ?_
      rintro read ⟨hread, hafter⟩
      exact ⟨hheader.admitted hkind hchild (hread child childContent hchild), hafter⟩
    refine Decides.congr (hmembers.bind fun r₃ hr₃ => decides_ok ⟨fun kind' content' hparse' => ?_,
      hr₃⟩) (and_iff_left trivial).symm
    cases hparse.symm.trans hparse'
    exact hheader

theorem encoded_of_encodeGeometry {geometry : JsonGeometry} {includeSrid : Bool} {levels : Nat}
    {members : Members} {bytes : List UInt8}
    (h : encodeGeometry geometry includeSrid levels members = .ok bytes) :
    Encoded geometry includeSrid levels members bytes := by
  induction levels generalizing members bytes with
  | zero => cases h
  | succ levels ih =>
    rw [encodeGeometry] at h
    obtain ⟨kind, hkind, h⟩ := bind_eq_ok.1 h
    obtain ⟨content, hcontent, h⟩ := bind_eq_ok.1 h
    obtain ⟨⟨⟩, -, h⟩ := bind_eq_ok.1 h
    obtain ⟨⟨⟩, -, h⟩ := bind_eq_ok.1 h
    obtain ⟨raw, hbody, h⟩ := bind_eq_ok.1 h
    cases h
    have hparse := parse_eq_some (okOr_eq_ok.1 hkind) (okOr_eq_ok.1 hcontent)
    have hheader := header_length kind geometry includeSrid
    have hlength : 5 ≤ (JsonInput.header kind geometry includeSrid ++ raw).length := by
      rw [List.length_append]
      omega
    rcases body_eq_ok hbody with ⟨hkind, hbody⟩ | ⟨hkind, encoded, hcontainer, rfl⟩
    · exact ⟨⟨kind, content, hparse⟩, hlength, whole_body hparse hkind hbody,
        decides_body hparse hkind hbody⟩
    · have hitems := fun item hitem => ih (hcontainer.items item hitem)
      exact ⟨⟨kind, content, hparse⟩, hlength,
        whole_container hparse hkind hcontainer.word fun item hitem => (hitems item hitem).whole,
        decides_container hparse hkind hcontainer.word hitems⟩

/-! ## The whole value -/

theorem splitOn_typeName (kind : Kind) : (typeName kind).splitOn "," = [typeName kind] := by
  unfold String.splitOn
  cases kind <;> simp +decide [typeName, String.splitOnAux]

theorem typeName_declared (kind : Kind) :
    (typeNames.find? (·.1 == kind.code)).map (·.2) = some (typeName kind) ∧
      (typeName kind).toLower = typeName kind := by
  cases kind <;> decide +kernel

theorem start_ahead {bytes : List UInt8} (hlength : bytes.length < 2 ^ 63) (phase : Core.ErrorPhase) :
    Ahead (Reader.start bytes openBudget openBudget phase) (bytes ++ []) 0 := by
  refine ⟨?_, Nat.zero_le _, hlength, Nat.zero_le _, Nat.zero_le _, rfl, rfl⟩
  rw [List.append_nil]
  rfl

theorem decides_decode {geometry : JsonGeometry} {includeSrid : Bool} {members : Members}
    {kind : Kind} {content : Value} {bytes : List UInt8} (phase : Core.ErrorPhase)
    (hparse : parse members = some (kind, content)) (hlength : bytes.length < 2 ^ 63)
    (h : Decided geometry includeSrid members bytes) :
    Decides (decode bytes openBudget openBudget phase)
      (Admissible includeSrid (maxNesting + 1) true members)
      fun inspection => inspection.root.baseType = kind.code ∧
        inspection.root.hasZ = decide (geometry.dimensions = .xyz) ∧
        inspection.root.hasM = false ∧
        inspection.root.srid = if includeSrid then some (UInt32.ofNat geometry.srid) else none := by
  unfold decode Reader.geometry
  refine Decides.congr ((h _ 0 true _ [] (start_ahead hlength phase) rfl).bind fun read hread => ?_)
    (and_iff_left trivial).symm
  obtain ⟨header, r⟩ := read
  obtain ⟨hheader, hafter⟩ := hread
  have hheader := hheader kind content hparse
  have hend : ¬ r.remaining ≠ 0 := by
    rw [hafter.remaining]
    simp
  show Decides (failIf (r.remaining ≠ 0) _ >>= _) _ _
  rw [failIf_neg hend, ok_bind]
  exact decides_ok ⟨hheader.baseType, hheader.hasZ, hheader.hasM, hheader.srid⟩

theorem verifySrid_declared {geometry : JsonGeometry} (h : geometry.encoding = .ewkb)
    (phase : Core.ErrorPhase) :
    verifySrid (valueContract geometry) (UInt32.ofNat geometry.srid) phase = .ok () := by
  unfold verifySrid valueContract
  rw [h]
  simp

/-- **The core accepts an encoding exactly where its value is admissible.** -/
theorem decides_verifyValue {geometry : JsonGeometry} {members : Members} {kind : Kind}
    {content : Value} {bytes : List UInt8} (phase : Core.ErrorPhase)
    (hparse : parse members = some (kind, content))
    (hdeclared : ¬ geometry.geometryType.any (· ≠ kind) = true) (hlength : bytes.length < 2 ^ 63)
    (h : Decided geometry (geometry.encoding = .ewkb) members bytes) :
    Decides (verifyValue (valueContract geometry) bytes openBudget openBudget phase)
      (Admissible (geometry.encoding = .ewkb) (maxNesting + 1) true members) fun _ => True := by
  obtain ⟨hname, hlower⟩ := typeName_declared kind
  unfold verifyValue
  refine Decides.congr ((decides_decode phase hparse hlength h).bind fun inspection hread => ?_)
    (and_iff_left trivial).symm
  obtain ⟨hbase, hz, hm, hsrid⟩ := hread
  have hdeclaredType : ¬ (valueContract geometry).types.any (fun types =>
      ¬ (types.splitOn ",").any fun item =>
        item.toLower == "unknown" || item.toLower == typeName kind) = true := by
    unfold valueContract
    cases htype : geometry.geometryType with
    | none => simp
    | some declared =>
      rw [htype] at hdeclared
      have heq : declared = kind := by simpa using hdeclared
      simp [heq, splitOn_typeName, hlower]
  have hdimensions : ¬ (valueContract geometry).dimensions.any (fun declared =>
      declared != "unknown" && declared != dimensionsLabel inspection.root) = true := by
    have hlabel : dimensionsLabel inspection.root = dimensionsText geometry.dimensions := by
      unfold dimensionsLabel
      rw [hz, hm]
      cases geometry.dimensions <;> rfl
    simp [valueContract, hlabel]
  simp only [hbase, hname, okOr_some, ok_bind, failIf_neg hdeclaredType, failIf_neg hdimensions]
  rw [hsrid]
  cases hencoding : geometry.encoding with
  | wkb => exact decides_ok trivial
  | ewkb =>
    show Decides (verifySrid (valueContract geometry) (UInt32.ofNat geometry.srid) phase >>= _) _ _
    rw [verifySrid_declared hencoding phase]
    exact decides_ok trivial

theorem describe_head {dimensions : Dimensions} {levels : Nat} {members : Members}
    {node : Node Value} (h : node ∈ describe dimensions levels members) :
    node.head = ⟨node.head.kind, dimensions = .xyz, false, none⟩ := by
  induction levels generalizing members with
  | zero => cases h
  | succ levels ih =>
    cases hparse : parse members with
    | none =>
      rw [describe, hparse] at h
      cases h
    | some parsed =>
      rw [describe_succ levels hparse, List.mem_cons] at h
      rcases h with rfl | h
      · rfl
      · obtain ⟨child, -, hnode⟩ := List.mem_flatMap.1 h
        exact ih hnode

theorem map_eq_map_iff {α β : Type} {f g : α → β} (content : Content α) :
    content.map f = content.map g ↔ ∀ value ∈ Content.values content, f value = g value := by
  cases content with
  | points ps =>
    simp only [Content.map, Content.values, Content.points.injEq, List.map_inj_left,
      List.mem_flatten]
    refine ⟨fun h => ?_, fun h p hp value hvalue => h value ⟨p, hp, hvalue⟩⟩
    rintro value ⟨p, hp, hvalue⟩
    exact h p hp value hvalue
  | rings rs =>
    simp only [Content.map, Content.values, Content.rings.injEq, List.map_inj_left,
      List.mem_flatten]
    refine ⟨fun h => ?_, fun h r hr p hp value hvalue => h value ⟨p, ⟨r, hr, hp⟩, hvalue⟩⟩
    rintro value ⟨p, ⟨r, hr, hp⟩, hvalue⟩
    exact h r hr p hp value hvalue
  | members n => simp [Content.map, Content.values]

/-- The encoded nodes have the numbers of the value where every coordinate is a float. -/
theorem shape_encodedNode_iff (geometry : JsonGeometry) (includeSrid : Bool) (levels : Nat)
    (members : Members) :
    ((describe geometry.dimensions levels members).map (encodedNode geometry includeSrid)).map
        (shape exactBits) = (describe geometry.dimensions levels members).map (shape exact) ↔
      Exact (describe geometry.dimensions levels members) := by
  unfold Exact
  rw [List.map_map, List.map_inj_left]
  refine forall₂_congr fun node hnode => ?_
  rw [← map_eq_map_iff]
  have hhead := describe_head hnode
  have hmap : (node.content.map toFloat).map exactBits =
      node.content.map fun value => exactBits (toFloat value) := by
    cases node.content <;> simp [Content.map]
  show shape exactBits ⟨headOf node.head.kind geometry includeSrid, node.content.map toFloat⟩ = _ ↔ _
  unfold shape Node.map headOf
  rw [hmap]
  constructor
  · intro heq
    exact (Node.mk.inj heq).2
  · intro heq
    rw [heq, hhead]

/-- The SRID that an encoding opens with. -/
theorem srid_encodedNode {geometry : JsonGeometry} {levels : Nat} {members : Members} {kind : Kind}
    {content : Value} {bytes : List UInt8}
    (h : encodeGeometry geometry (geometry.encoding = .ewkb) levels members = .ok bytes)
    (hparse : parse members = some (kind, content)) :
    ((describe geometry.dimensions levels members).map
        (encodedNode geometry (geometry.encoding = .ewkb))).head?.bind (·.head.srid) =
      if geometry.encoding = .ewkb then some (UInt32.ofNat geometry.srid) else none := by
  cases levels with
  | zero => cases h
  | succ levels =>
    rw [describe_succ levels hparse]
    show (if decide (geometry.encoding = .ewkb) = true then _ else _) = _
    simp only [decide_eq_true_eq]

/-- **Where a GeoJSON value is encoded, the core accepts the bytes and they read back as the value
exactly where it is faithful.** -/
theorem reproduced_iff (levels : Nat) (geometry : JsonGeometry) (members : Members)
    (bytes : List UInt8) (h : geojsonToWkb levels geometry (.object members) = .ok bytes) :
    Reproduced levels geometry members bytes ↔ Faithful levels geometry members := by
  rw [geojsonToWkb] at h
  obtain ⟨kind, hkind, h⟩ := bind_eq_ok.1 h
  obtain ⟨⟨⟩, hdeclared, h⟩ := bind_eq_ok.1 h
  obtain ⟨bytes, hencode, h⟩ := bind_eq_ok.1 h
  obtain ⟨⟨⟩, hmemory, h⟩ := bind_eq_ok.1 h
  cases h
  have hencoded := encoded_of_encodeGeometry hencode
  obtain ⟨kind', content, hparse⟩ := hencoded.parsed
  have hsame : kind' = kind := by
    obtain ⟨parsed, hparsed, hparse⟩ := Option.bind_eq_some_iff.1 hparse
    obtain ⟨content', -, hparse⟩ := Option.bind_eq_some_iff.1 hparse
    cases hparse
    exact Option.some.inj (hparsed.symm.trans (okOr_eq_ok.1 hkind))
  subst hsame
  have hlength : bytes.length < 2 ^ 63 := Nat.lt_of_not_le (failIf_eq_ok.1 hmemory)
  have haccepted := fun phase => decides_verifyValue phase hparse (failIf_eq_ok.1 hdeclared) hlength
    hencoded.decided
  have hread := read_of_whole hencoded.whole
  have hshape := shape_encodedNode_iff geometry (geometry.encoding = .ewkb) levels members
  constructor
  · rintro ⟨haccept, nodes, hnodes, hnumbers, -⟩
    cases hread.symm.trans hnodes
    exact ⟨(haccepted .read).ok_iff.1 (haccept .read), hshape.1 hnumbers⟩
  · rintro ⟨hadmissible, hexact⟩
    refine ⟨fun phase => (haccepted phase).ok_iff.2 hadmissible, _, hread, hshape.2 hexact, ?_⟩
    exact srid_encodedNode hencode hparse

/-! ## Points of a MultiPoint -/

def webMercator (encoding : Encoding) : JsonGeometry where
  srid := 3857
  dimensions := .xy
  geometryType := none
  encoding := encoding
  srid_pos := by decide
  srid_le := by decide

/-- One point, at (1.0, 2.0). -/
def onePoint : Members :=
  [("type", .str "MultiPoint"),
    ("coordinates", .list [.list [.float 0x3FF0000000000000, .float 0x4000000000000000]])]

theorem parse_onePoint : parse onePoint =
    some (.multiPoint, .list [.list [.float 0x3FF0000000000000, .float 0x4000000000000000]]) :=
  parse_multi _ (by decide +kernel) (by decide)

theorem parse_point (position : Value) :
    parse (childOf .multiPoint position) = some (.point, position) :=
  parse_multi _ (by decide +kernel) (by decide)

/-- As `ewkb`, the core refuses the SRID on the point. -/
theorem onePoint_refused : ∃ bytes,
    geojsonToWkb 2 (webMercator .ewkb) (.object onePoint) = .ok bytes ∧
      ¬ Reproduced 2 (webMercator .ewkb) onePoint bytes := by
  refine ⟨_, rfl, fun h => ?_⟩
  obtain ⟨inspection, haccepted⟩ := h.accepted .write
  nomatch haccepted

/-- As `wkb`, the point is read back. -/
theorem onePoint_reproduced : ∃ bytes,
    geojsonToWkb 2 (webMercator .wkb) (.object onePoint) = .ok bytes ∧
      Reproduced 2 (webMercator .wkb) onePoint bytes := by
  refine ⟨_, rfl, (reproduced_iff 2 (webMercator .wkb) onePoint _ rfl).2 ⟨?_, ?_⟩⟩
  · refine (admissible_succ parse_onePoint).2 ⟨fun _ => rfl, fun h => (by cases h), ?_⟩
    rintro child (_ | ⟨_, hchild⟩)
    · refine (admissible_succ (parse_point _)).2 ⟨fun h => h, fun h => (by cases h), ?_⟩
      exact fun child hchild => (by cases hchild)
    · cases hchild
  · intro node hnode value hvalue
    rw [describe_succ 1 parse_onePoint] at hnode
    rcases List.mem_cons.1 hnode with rfl | hnode
    · cases hvalue
    · obtain ⟨child, hchild, hnode⟩ := List.mem_flatMap.1 hnode
      cases List.mem_singleton.1 hchild
      rw [describe_succ 0 (parse_point _)] at hnode
      rcases List.mem_cons.1 hnode with rfl | hnode
      · have hfloats : value ∈ [Value.float 0x3FF0000000000000, .float 0x4000000000000000] := hvalue
        rcases List.mem_pair.1 hfloats with rfl | rfl
        · rfl
        · rfl
      · cases hnode

end Plenora.Sdk.JsonInput
