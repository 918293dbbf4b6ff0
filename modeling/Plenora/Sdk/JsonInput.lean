import Plenora.Lib.IeeeRounding
import Plenora.Lib.Outcome
import Plenora.Lib.Wkb
import Plenora.Core.GeometryValue

/-!
# GeoJSON input of the Python SDK

`_geojson_to_wkb` encodes a GeoJSON value into the WKB or EWKB that its column
declares.  A value is what `json.loads` returns, floats by their bits; the levels
left of the interpreter's stack are a parameter.

    geojsonToWkb levels geometry value : Except Failure (List UInt8)
-/

namespace Plenora.Sdk.JsonInput

open Plenora.Lib Plenora.Lib.Wkb

/-! ## Data model -/

inductive Value where
  | null
  | bool (b : Bool)
  | int (n : Int)
  | float (bits : UInt64)
  | str (s : String)
  | list (items : List Value)
  | object (members : List (String × Value))

abbrev Members := List (String × Value)

/-- `value.get`. -/
def get (members : Members) (name : String) : Option Value :=
  (members.find? (·.1 = name)).map (·.2)

inductive Dimensions where
  | xy | xyz
  deriving DecidableEq, Repr

inductive Encoding where
  | wkb | ewkb
  deriving DecidableEq, Repr

/-- The contract of a GeoJSON column. -/
structure JsonGeometry where
  srid : Nat
  dimensions : Dimensions
  geometryType : Option Kind
  encoding : Encoding
  srid_pos : 0 < srid
  srid_le : srid ≤ 0x1FFFFFFF

/-- A `JsonInputError`, or a value larger than the interpreter can hold. -/
inductive Failure where
  | jsonInput (code message : String)
  | memory
  deriving DecidableEq, Repr

abbrev Fallible (α : Type) := Except Failure α

/-! ## Algorithm -/

def typeError : Failure := .jsonInput "geojson_type" "tipo GeoJSON non supportato"
def coordinatesError : Failure :=
  .jsonInput "geojson_coordinates" "coordinate GeoJSON non valide"
def collectionError : Failure :=
  .jsonInput "geojson_coordinates" "GeometryCollection non valida"
def bboxError : Failure := .jsonInput "geojson_bbox" "bbox GeoJSON non valido"

def typeName : Kind → String
  | .point => "point"
  | .lineString => "linestring"
  | .polygon => "polygon"
  | .multiPoint => "multipoint"
  | .multiLineString => "multilinestring"
  | .multiPolygon => "multipolygon"
  | .geometryCollection => "geometrycollection"

/-- `str.lower`; no letter outside ASCII lowers to one of these names. -/
def lower (s : String) : String := String.ofList (s.toList.map Char.toLower)

/-- The geometry type that a value names. -/
def kindOf : Option Value → Option Kind
  | some (.str name) => kinds.find? (typeName · = lower name)
  | _ => none

/-- A finite float, or an integer that a float can stand for; `isfinite` of a larger one
overflows. -/
def coordinate : Value → Fallible UInt64
  | .int n => if Ieee.isFinite (Ieee.ofInt n) then .ok (Ieee.ofInt n) else .error coordinatesError
  | .float bits => if Ieee.isFinite bits then .ok bits else .error coordinatesError
  | _ => .error coordinatesError

def width : Dimensions → Nat
  | .xy => 2
  | .xyz => 3

def position (dimensions : Dimensions) : Value → Fallible (List UInt64)
  | .list coordinates =>
    if coordinates.length = width dimensions then coordinates.mapM coordinate
    else .error coordinatesError
  | _ => .error coordinatesError

def points (dimensions : Dimensions) (minimum : Nat) : Value → Fallible (List (List UInt64))
  | .list values =>
    if values.length < minimum then .error coordinatesError
    else values.mapM (position dimensions)
  | _ => .error coordinatesError

/-- Equality of finite floats. -/
def floatEq (a b : UInt64) : Bool := a = b || (Ieee.isZero a && Ieee.isZero b)

def samePosition (p q : List UInt64) : Bool :=
  p.length = q.length && (p.zip q).all fun (a, b) => floatEq a b

def ring (dimensions : Dimensions) (value : Value) : Fallible (List (List UInt64)) := do
  let ring ← points dimensions 4 value
  failIf (samePosition (ring.headD []) (ring.getLastD []) = false)
    (.jsonInput "geojson_ring" "un anello GeoJSON non e chiuso")
  .ok ring

/-- `struct.pack("<I", …)`. -/
def packCount (count : Nat) : Fallible (List UInt8) :=
  if count < 2 ^ 32 then .ok (leBytes 4 count) else .error coordinatesError

def packPoints (points : List (List UInt64)) : List UInt8 :=
  points.flatMap fun point => point.flatMap fun bits => leBytes 8 bits.toNat

def typeCode (kind : Kind) (dimensions : Dimensions) (includeSrid : Bool) : UInt32 :=
  let code := match dimensions with
    | .xy => kind.code
    | .xyz => if includeSrid then kind.code ||| 0x80000000 else kind.code + 1000
  if includeSrid then code ||| 0x20000000 else code

def header (kind : Kind) (geometry : JsonGeometry) (includeSrid : Bool) : List UInt8 :=
  1 :: leBytes 4 (typeCode kind geometry.dimensions includeSrid).toNat ++
    if includeSrid then leBytes 4 geometry.srid else []

/-- A coordinate of a bounding box; `isfinite` of an integer that is too large overflows. -/
def bboxCoordinate : Value → Fallible Unit
  | .int n => if Ieee.isFinite (Ieee.ofInt n) then .ok () else .error coordinatesError
  | .float bits => if Ieee.isFinite bits then .ok () else .error bboxError
  | _ => .error bboxError

def bboxCoordinates : List Value → Fallible Unit
  | [] => .ok ()
  | value :: values => do
    bboxCoordinate value
    bboxCoordinates values

def validateBbox (dimensions : Dimensions) : Option Value → Fallible Unit
  | none => .ok ()
  | some (.list values) => do
    failIf (values.length ≠ 2 * width dimensions) bboxError
    bboxCoordinates values
  | some _ => .error bboxError

def childKind : Kind → String
  | .multiPoint => "Point"
  | .multiLineString => "LineString"
  | _ => "Polygon"

def coordinateMember (kind : Kind) : String :=
  if kind = .geometryCollection then "geometries" else "coordinates"

def pointBody (dimensions : Dimensions) (content : Value) : Fallible (List UInt8) := do
  let point ← position dimensions content
  .ok (packPoints [point])

def lineBody (dimensions : Dimensions) (content : Value) : Fallible (List UInt8) := do
  let points ← points dimensions 2 content
  let count ← packCount points.length
  .ok (count ++ packPoints points)

def ringBytes (dimensions : Dimensions) (value : Value) : Fallible (List UInt8) := do
  let ring ← ring dimensions value
  let count ← packCount ring.length
  .ok (count ++ packPoints ring)

def polygonBody (dimensions : Dimensions) : Value → Fallible (List UInt8)
  | .list rings => do
    let count ← packCount rings.length
    let bytes ← rings.mapM (ringBytes dimensions)
    .ok (count ++ bytes.flatten)
  | _ => .error coordinatesError

/-- The items of a container, each encoded by `member`. -/
def containerBody (member : Value → Fallible (List UInt8)) (notItems : Failure) :
    Value → Fallible (List UInt8)
  | .list items => do
    let count ← packCount items.length
    let bytes ← items.mapM member
    .ok (count ++ bytes.flatten)
  | _ => .error notItems

/-- What follows the header; `encode` is the encoding one level down. -/
def body (encode : Members → Fallible (List UInt8)) (dimensions : Dimensions) (kind : Kind)
    (content : Value) : Fallible (List UInt8) :=
  match kind with
  | .point => pointBody dimensions content
  | .lineString => lineBody dimensions content
  | .polygon => polygonBody dimensions content
  | .multiPoint | .multiLineString | .multiPolygon =>
    containerBody (fun item => encode [("type", .str (childKind kind)), ("coordinates", item)])
      coordinatesError content
  | .geometryCollection =>
    containerBody (fun item => match item with
      | .object members => encode members
      | _ => .error collectionError) collectionError content

/-- `_encode_geometry`. -/
def encodeGeometry (geometry : JsonGeometry) (includeSrid : Bool) :
    Nat → Members → Fallible (List UInt8)
  | 0, _ => .error coordinatesError
  | levels + 1, members => do
    let kind ← okOr (kindOf (get members "type")) typeError
    let content ← okOr (get members (coordinateMember kind))
      (.jsonInput "geojson_member" "la geometria contiene membri non dichiarati")
    failIf (members.any fun member => member.1 ∉ ["type", "bbox", coordinateMember kind])
      (.jsonInput "geojson_member" "la geometria contiene membri non dichiarati")
    validateBbox geometry.dimensions (get members "bbox")
    let body ← body (encodeGeometry geometry includeSrid levels) geometry.dimensions kind content
    .ok (header kind geometry includeSrid ++ body)

/-- `_geojson_to_wkb`. -/
def geojsonToWkb (levels : Nat) (geometry : JsonGeometry) : Value → Fallible (List UInt8)
  | .object members => do
    let kind ← okOr (kindOf (get members "type")) typeError
    failIf (geometry.geometryType.any (· ≠ kind))
      (.jsonInput "geojson_type" "tipo GeoJSON incompatibile con lo schema")
    let bytes ← encodeGeometry geometry (geometry.encoding = .ewkb) levels members
    -- the length of `bytes` is a machine word with a sign
    failIf (2 ^ 63 ≤ bytes.length) .memory
    .ok bytes
  | _ => .error (.jsonInput "geojson_type" "il campo geometrico non e un oggetto GeoJSON")

def dimensionsText : Dimensions → String
  | .xy => "xy"
  | .xyz => "xyz"

/-- The contract of the Arrow field that the declaration stands for. -/
def valueContract (geometry : JsonGeometry) : Core.GeometryValue.ValueContract where
  ewkb := some (geometry.encoding = .ewkb)
  srid := some (UInt32.ofNat geometry.srid)
  types := geometry.geometryType.map typeName
  dimensions := some (dimensionsText geometry.dimensions)

end Plenora.Sdk.JsonInput
