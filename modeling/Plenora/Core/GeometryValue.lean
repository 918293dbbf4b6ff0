import Plenora.Core.Ewkb

/-!
# Reading an Arrow geometry value

`decode` reads a WKB or EWKB value by recursion on its nesting, at most 32 levels
below the root, and checks the well-formedness of every member on the way; the
bytes come before the budget, so a count the bytes cannot hold is a truncated
value.  `verifyValue` then compares the value with what its field declares.
-/

namespace Plenora.Core.GeometryValue

open Plenora.Lib Plenora.Core.Ewkb

/-! ## Data model -/

def flagZ : UInt32 := 0x80000000
def flagM : UInt32 := 0x40000000
def flagSrid : UInt32 := 0x20000000

/-- Levels of nesting admitted below the root. -/
def maxNesting : Nat := 32

def typeNames : List (UInt32 × String) :=
  [(1, "point"), (2, "linestring"), (3, "polygon"), (4, "multipoint"), (5, "multilinestring"),
   (6, "multipolygon"), (7, "geometrycollection"), (8, "circularstring"), (9, "compoundcurve"),
   (10, "curvepolygon"), (11, "multicurve"), (12, "multisurface"), (15, "polyhedralsurface"),
   (16, "tin"), (17, "triangle")]

/-- The members a container admits; `none` admits every geometry. -/
def admittedMembers (container : UInt32) : Option (List UInt32) :=
  if container = 4 then some [1]
  else if container = 5 then some [2]
  else if container = 6 ∨ container = 15 then some [3]
  else if container = 9 then some [2, 8]
  else if container = 10 ∨ container = 11 then some [2, 8, 9]
  else if container = 12 then some [3, 10]
  else if container = 16 then some [17]
  else none

structure Reader where
  bytes : List UInt8
  offset : Nat
  components : Nat
  maxComponents : Nat
  maxDepth : Nat
  observedDepth : Nat
  hasAnyZ : Bool
  hasAnyM : Bool
  phase : ErrorPhase
  deriving DecidableEq, Repr

structure Header where
  baseType : UInt32
  littleEndian : Bool
  hasZ : Bool
  hasM : Bool
  srid : Option UInt32
  deriving DecidableEq, Repr

/-- Bytes of one point. -/
def Header.width (h : Header) : Nat := 8 * (2 + h.hasZ.toNat + h.hasM.toNat)

/-- A geometry made of members rather than of coordinates. -/
def Header.isContainer (h : Header) : Bool :=
  h.baseType != 1 && h.baseType != 2 && h.baseType != 8 && h.baseType != 3 && h.baseType != 17

/-! ## Algorithm -/

namespace Reader

def malformed (r : Reader) (message : String) : DatabaseError :=
  .new .dataMapping r.phase none message

def take (r : Reader) (amount : Nat) : Result (List UInt8 × Reader) := do
  let stop ← okOr ((checkedAdd 64 r.offset amount).filter (· ≤ r.bytes.length))
    (r.malformed "valore WKB troncato")
  .ok ((r.bytes.drop r.offset).take amount, { r with offset := stop })

def remaining (r : Reader) : Nat := r.bytes.length - r.offset

def u32 (r : Reader) (littleEndian : Bool) : Result (UInt32 × Reader) := do
  let (raw, r) ← r.take 4
  .ok (wordOfBytes littleEndian raw, r)

def addComponents (r : Reader) (amount : Nat) : Result Reader := do
  let components ← okOr (checkedAdd 64 r.components amount)
    (.resourceLimit "overflow nel conteggio componenti WKB")
  failIf (components > r.maxComponents)
    (.resourceLimit "geometria WKB oltre il limite di componenti")
  .ok { r with components }

def byteOrder (r : Reader) : Result (Bool × Reader) := do
  let (order, r) ← r.take 1
  match order with
  | [0] => .ok (false, r)
  | [1] => .ok (true, r)
  | _ => .error (r.malformed "byte order WKB diverso da 0 e 1")

def header (r : Reader) (outer : Bool) : Result (Header × Reader) := do
  let (littleEndian, r) ← r.byteOrder
  let (code, r) ← r.u32 littleEndian
  let flaggedZ := code &&& flagZ != 0
  let flaggedM := code &&& flagM != 0
  let hasSrid := code &&& flagSrid != 0
  let base := code &&& 0x1fffffff
  let thousands := base / 1000
  let kind := base % 1000
  failIf (thousands > 3) (r.malformed "codice di tipo WKB ignoto")
  failIf (thousands > 0 ∧ (flaggedZ ∨ flaggedM ∨ hasSrid))
    (r.malformed "codice di tipo ISO con flag della forma estesa")
  let hasZ := if thousands > 0 then thousands == 1 || thousands == 3 else flaggedZ
  let hasM := if thousands > 0 then decide (thousands ≥ 2) else flaggedM
  failIf (¬ typeNames.any (·.1 == kind)) (r.malformed "codice di tipo WKB ignoto")
  if hasSrid then do
    failIf (¬ outer) (r.malformed "SRID su un membro di una geometria")
    let (srid, r) ← r.u32 littleEndian
    .ok ({ baseType := kind, littleEndian, hasZ, hasM, srid := some srid }, r)
  else
    .ok ({ baseType := kind, littleEndian, hasZ, hasM, srid := none }, r)

/-- `count` points of `width` bytes: first the bytes, then the budget. -/
def points (r : Reader) (count width : Nat) : Result (List UInt8 × Reader) := do
  let bytes ← okOr ((checkedMul 64 count width).filter (· ≤ r.remaining))
    (r.malformed "valore WKB troncato")
  let r ← r.addComponents count
  r.take bytes

/-- A ring: at least four points, the last equal to the first. -/
def ring (r : Reader) (littleEndian : Bool) (width : Nat) : Result Reader := do
  let (count, r) ← r.u32 littleEndian
  let (points, r) ← r.points count.toNat width
  failIf (count < 4 ∨ points.take width ≠ points.drop (points.length - width))
    (r.malformed "anello non chiuso o di meno di quattro punti")
  .ok r

def rings (littleEndian : Bool) (width : Nat) : Nat → Reader → Result Reader
  | 0, r => .ok r
  | n + 1, r => do
    let r ← r.ring littleEndian width
    rings littleEndian width n r

/-- A declared count whose items take at least `size` bytes each. -/
def count (r : Reader) (littleEndian : Bool) (size : Nat) : Result (Nat × Reader) := do
  let (items, r) ← r.u32 littleEndian
  let _ ← okOr ((checkedMul 64 items.toNat size).filter (· ≤ r.remaining))
    (r.malformed "valore WKB troncato")
  .ok (items.toNat, r)

/-- The coordinates of a geometry without members. -/
def coordinates (r : Reader) (header : Header) : Result Reader :=
  if header.baseType = 1 then do
    let (_, r) ← r.points 1 header.width
    .ok r
  else if header.baseType = 2 then do
    let (count, r) ← r.u32 header.littleEndian
    let (_, r) ← r.points count.toNat header.width
    failIf (count = 1) (r.malformed "linestring di un solo punto")
    .ok r
  else if header.baseType = 8 then do
    let (count, r) ← r.u32 header.littleEndian
    let (_, r) ← r.points count.toNat header.width
    failIf (count ≠ 0 ∧ (count < 3 ∨ count % 2 = 0))
      (r.malformed "circular string senza un numero dispari di almeno tre punti")
    .ok r
  else do
    let (rings, r) ← r.count header.littleEndian 4
    failIf (header.baseType = 17 ∧ rings > 1) (r.malformed "triangolo con piu di un anello")
    let r ← r.addComponents rings
    Reader.rings header.littleEndian header.width rings r

/-- The checks and the header a geometry opens with. -/
def enter (r : Reader) (depth : Nat) (outer : Bool) : Result (Header × Reader) := do
  failIf (depth > maxNesting) (r.malformed "geometria WKB oltre 32 livelli di annidamento")
  failIf (depth ≥ r.maxDepth)
    (.resourceLimit "geometria WKB oltre il limite di profondita")
  let r := { r with observedDepth := max r.observedDepth (depth + 1) }
  let r ← r.addComponents 1
  let (header, r) ← r.header outer
  .ok (header, { r with hasAnyZ := r.hasAnyZ || header.hasZ, hasAnyM := r.hasAnyM || header.hasM })

/-- A member's type and dimensions against its container's. -/
def admitMember (r : Reader) (container member : Header) : Result Unit := do
  failIf ((admittedMembers container.baseType).any (¬ ·.contains member.baseType))
    (r.malformed "membro di un tipo che il contenitore non ammette")
  failIf ((member.hasZ, member.hasM) ≠ (container.hasZ, container.hasM))
    (r.malformed "membro con dimensioni diverse dal contenitore")

/-- The members of a container, each read by `member`. -/
def members (member : Reader → Result (Header × Reader)) (container : Header) :
    Nat → Reader → Result Reader
  | 0, r => .ok r
  | n + 1, r => do
    let (header, r) ← member r
    r.admitMember container header
    members member container n r

/-- A geometry and its members; `levels` bounds the recursion, and at depth
`maxNesting + 1 - levels` it is `enter` that refuses first. -/
def geometryWithin : Nat → Reader → Nat → Bool → Result (Header × Reader)
  | 0, r, _, _ => .error (r.malformed "geometria WKB oltre 32 livelli di annidamento")
  | levels + 1, r, depth, outer => do
    let (header, r) ← r.enter depth outer
    if header.isContainer then do
      let (count, r) ← r.count header.littleEndian 5
      let r ← members (fun r => geometryWithin levels r (depth + 1) false) header count r
      .ok (header, r)
    else do
      let r ← r.coordinates header
      .ok (header, r)

def geometry (r : Reader) (depth : Nat) (outer : Bool) : Result (Header × Reader) :=
  geometryWithin (maxNesting + 1 - depth) r depth outer

def start (bytes : List UInt8) (maxComponents maxDepth : Nat) (phase : ErrorPhase) : Reader :=
  { bytes, offset := 0, components := 0, maxComponents, maxDepth, observedDepth := 0
    hasAnyZ := false, hasAnyM := false, phase }

end Reader

def decode (bytes : List UInt8) (maxComponents maxDepth : Nat) (phase : ErrorPhase) :
    Result EwkbInspection := do
  let (root, r) ← (Reader.start bytes maxComponents maxDepth phase).geometry 0 true
  failIf (r.remaining ≠ 0) (r.malformed "byte dopo la geometria WKB")
  .ok { stats := { components := r.components, maxDepth := r.observedDepth }
        root := { baseType := root.baseType, hasZ := root.hasZ, hasM := root.hasM
                  srid := root.srid }
        hasAnyZ := r.hasAnyZ
        hasAnyM := r.hasAnyM
        -- an SRID on a member is malformed, so the root's is the only one
        hasAnyEmbeddedSrid := root.srid.isSome
        embeddedSridCount := root.srid.isSome.toNat }

/-- The recursion as the source writes it: the nesting check comes before anything else, and
the members of a container are read one level deeper. -/
theorem Reader.geometry_eq (r : Reader) (depth : Nat) (outer : Bool) :
    r.geometry depth outer =
      (if depth > maxNesting then
        .error (r.malformed "geometria WKB oltre 32 livelli di annidamento")
      else do
        let (header, r) ← r.enter depth outer
        if header.isContainer then do
          let (count, r) ← r.count header.littleEndian 5
          let r ← Reader.members (fun r => r.geometry (depth + 1) false) header count r
          .ok (header, r)
        else do
          let r ← r.coordinates header
          .ok (header, r)) := by
  unfold Reader.geometry
  split
  next h =>
    have : maxNesting + 1 - depth = 0 := by omega
    rw [this]
    rfl
  next h =>
    have : maxNesting + 1 - depth = (maxNesting + 1 - (depth + 1)) + 1 := by omega
    rw [this]
    rfl

/-! ## A value and its field -/

/-- What a field declares of its values; `ewkb` is `none` on a legacy input without an
encoding. -/
structure ValueContract where
  ewkb : Option Bool
  srid : Option UInt32
  types : Option String
  dimensions : Option String
  deriving DecidableEq, Repr

def dimensionsLabel (root : EwkbGeometryMetadata) : String :=
  match root.hasZ, root.hasM with
  | false, false => "xy"
  | true, false => "xyz"
  | false, true => "xym"
  | true, true => "xyzm"

/-- The embedded SRID against the declared one; a legacy field without either keeps its own. -/
def verifySrid (contract : ValueContract) (srid : UInt32) (phase : ErrorPhase) : Result Unit := do
  failIf (contract.ewkb = some false)
    (.new .dataMapping phase none "SRID incorporato in un valore dichiarato wkb")
  failIf (¬ (contract.ewkb.isNone ∧ contract.srid.isNone) ∧ contract.srid ≠ some srid)
    (.new .crs phase none
      "SRID EWKB diverso da quello del campo, o su un campo che non ne dichiara")

def verifyValue (contract : ValueContract) (bytes : List UInt8) (maxComponents maxDepth : Nat)
    (phase : ErrorPhase) : Result EwkbInspection := do
  let inspection ← decode bytes maxComponents maxDepth phase
  match inspection.root.srid with
  | some srid => verifySrid contract srid phase
  | none => .ok ()
  let typeName ← okOr ((typeNames.find? (·.1 == inspection.root.baseType)).map (·.2))
    (.new .dataMapping phase none "tipo geometrico ignoto")
  failIf (contract.types.any fun types => ¬ (types.splitOn ",").any fun item =>
      item.toLower == "unknown" || item.toLower == typeName)
    (.new .dataMapping phase none "tipo del valore fuori dalla lista dichiarata")
  failIf (contract.dimensions.any fun declared =>
      declared != "unknown" && declared != dimensionsLabel inspection.root)
    (.new .dataMapping phase none "dimensioni del valore diverse da quelle dichiarate")
  .ok inspection

end Plenora.Core.GeometryValue
