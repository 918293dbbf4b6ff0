import Mathlib
import Plenora.Core.Error

/-!
# Read plans, bound values and rows

The part of a plan a read is made of: its source, ordering, filter and window;
the values bound to its parameters; the rows it delivers.
-/

namespace Plenora.Core

/-! ## Geometry vocabulary -/

inductive Dimensions where
  | xy | xyz | xym | xyzm | unknown
  deriving DecidableEq, Repr

inductive SpatialSemantics where
  | geometry | geography
  deriving DecidableEq, Repr

inductive SpatialFunction where
  | geometryType | srid | dimensions | x | y | z | m | nPoints | nRings | startPoint | endPoint
  | pointN | isEmpty | isValid | isSimple | isClosed | intersects | contains | containsProperly
  | within | covers | coveredBy | touches | crosses | overlaps | disjoint | equals | relate
  | dWithin | setSrid | transform | force2d | force3d | force3dm | force4d | buffer | offsetCurve
  | intersection | difference | symDifference | union | unaryUnion | simplify
  | simplifyPreserveTopology | makeValid | centroid | pointOnSurface | envelope | convexHull
  | orientedEnvelope | boundary | lineMerge | reverse | subdivide | snapToGrid | distance
  | distance3d | maxDistance | hausdorffDistance | frechetDistance | azimuth | area | length
  | perimeter | collect | extent | asGeoJson | asMvtGeom | asMvt | asGeobuf | clusterDbscan
  | clusterKMeans
  deriving DecidableEq, Repr

/-! ## Plan -/

structure ObjectRef where
  catalog : Option String
  schema : Option String
  object : String
  deriving DecidableEq, Repr

inductive SortDirection where
  | asc | desc
  deriving DecidableEq, Repr

structure OrderBy where
  field : String
  direction : SortDirection
  deriving DecidableEq, Repr

inductive ComparisonOperator where
  | eq | ne | lt | lte | gt | gte
  deriving DecidableEq, Repr

inductive FilterExpression where
  | and (args : List FilterExpression)
  | or (args : List FilterExpression)
  | eq (field parameter : String)
  | ne (field parameter : String)
  | lt (field parameter : String)
  | lte (field parameter : String)
  | gt (field parameter : String)
  | gte (field parameter : String)
  | isNull (field : String)
  | isNotNull (field : String)
  | inList (field : String) (parameters : List String)
  | between (field lowerParameter upperParameter : String)
  | like (field parameter : String) (caseInsensitive : Bool)
  | spatial (function : SpatialFunction) (field : String)
      (geometryParameter distanceParameter : Option String)

/-- The CRS the caller declares for a geometry column. -/
structure DeclaredCrs where
  column : String
  srid : UInt32
  deriving DecidableEq, Repr

structure ReadOperation where
  source : ObjectRef
  projection : List String
  orderBy : List OrderBy
  rowLimit : Option Nat
  rowOffset : Option Nat
  filter : Option FilterExpression
  declaredCrs : List DeclaredCrs

/-! ## Bound values -/

/-- A JSON document as its compact text, which writes a NUL as an escape. -/
structure JsonText where
  text : String
  noNul : '\x00' ∉ text.toList
  deriving DecidableEq, Repr

/-- A bound value.  A double is its 64 bits. -/
inductive ParameterValue where
  | bool (value : Bool)
  | i32 (value : Int32)
  | i64 (value : Int64)
  | f64 (bits : UInt64)
  | string (value : String)
  | bytes (value : List UInt8)
  | date (value : String)
  | timestamp (value : String)
  | timestampTz (value : String)
  | decimal (value : String)
  | uuid (value : String)
  | json (document : JsonText)
  | wkb (bytes : List UInt8) (srid : Option UInt32) (dimensions : Dimensions)
      (semantics : SpatialSemantics)
  | enum (typeName label : String)
  | null (typeName : String)
  deriving DecidableEq, Repr

def ParameterValue.isNull : ParameterValue → Bool
  | .null _ => true
  | _ => false

/-- The values bound to the parameters of a plan, each name at most once. -/
abbrev ParameterBag := AList (fun _ : String => ParameterValue)

namespace ParameterBag

def get (bag : ParameterBag) (name : String) : Option ParameterValue := AList.lookup name bag

end ParameterBag

/-! ## Rows -/

/-- A delivered row: as many values as column names. -/
structure Row where
  columns : List String
  values : List ParameterValue
  length_eq : columns.length = values.length

namespace Row

def validateNames (row : Row) : Result Unit :=
  if row.columns.Nodup then .ok ()
  else .error (.new .dataMapping .read none
    "nomi di colonna duplicati: usare alias distinti o accesso per posizione")

/-- Access by name; an ambiguous row has no access by name at all. -/
def tryGet (row : Row) (name : String) : Result (Option ParameterValue) := do
  row.validateNames
  .ok ((row.columns.findIdx? (· == name)).bind (row.values[·]?))

end Row

end Plenora.Core
