import Plenora.Lib.Ieee
import Plenora.Core.GeometryValue
import Plenora.Core.QueryAst

/-!
# Portable filters

The filter tree of a portable statement, and the rules the compiler asks before
it writes one: quoted identifiers, the SRID and the dimensions a spatial
reference declares, the spatial predicates a provider has, and the probes that
run without a catalog.

    quoteIdentifier d name = .ok text → unquote d text = some name     (unquote_quote)
-/

namespace Plenora.Core

open Plenora.Lib

/-! ## The filter tree -/

/-- The distance is the 64 bits of a double. -/
inductive SpatialPredicate where
  | intersects | contains | within
  | dWithin (distanceMeters : UInt64)
  | boundingBox
  deriving DecidableEq, Repr

structure SpatialReference where
  ewkb : List UInt8
  srid : UInt32
  dimensions : Dimensions
  semantics : SpatialSemantics
  deriving DecidableEq, Repr

namespace Portable

inductive Expression where
  | literal (value : ParameterValue)
  | column (name : String)
  | spatialValue (expression : Expression) (srid : UInt32) (semantics : SpatialSemantics)
  | typedParameter (parameterType : QueryParameterType)

inductive Predicate where
  | eq (column : String) (value : Expression)
  | ne (column : String) (value : Expression)
  | lt (column : String) (value : Expression)
  | lte (column : String) (value : Expression)
  | gt (column : String) (value : Expression)
  | gte (column : String) (value : Expression)
  | isIn (column : String) (values : List Expression)
  | between (column : String) (low high : Expression)
  | like (column : String) (pattern : Expression)
  | isNull (column : String)
  | isNotNull (column : String)
  | and (predicates : List Predicate)
  | or (predicates : List Predicate)
  | not (predicate : Predicate)
  | spatial (column : String) (predicate : SpatialPredicate) (reference : SpatialReference)

end Portable

/-! ## Identifiers -/

inductive DialectKind where
  | postgres | mysql | sqlServer | mariadb | db2 | oracle
  deriving DecidableEq, Repr

def DialectKind.provider : DialectKind → ProviderKind
  | postgres => .postgres
  | mysql => .mysql
  | mariadb => .mariadb
  | sqlServer => .sqlserver
  | db2 => .db2
  | oracle => .oracle

inductive IdentifierDialect where
  | postgres | oracle | mysql | sqlServer
  deriving DecidableEq, Repr

def DialectKind.identifier : DialectKind → IdentifierDialect
  | postgres | oracle | db2 => .postgres
  | mysql | mariadb => .mysql
  | sqlServer => .sqlServer

/-- `char::is_control`. -/
def isControl (c : Char) : Bool := c.toNat < 0x20 || (0x7f ≤ c.toNat && c.toNat < 0xa0)

namespace IdentifierDialect

def validateIdentifier (dialect : IdentifierDialect) (name : String) : Result Unit := do
  failIf (name.isEmpty) (.invalidPlan "identificatore vuoto")
  failIf (name.toList.any isControl)
    (.invalidPlan "identificatore contiene caratteri di controllo")
  match dialect with
  | postgres =>
    failIf (name.utf8ByteSize > 63)
      (.invalidPlan "identificatore PostgreSQL eccede 63 byte (NAMEDATALEN)")
  | oracle =>
    failIf (name.utf8ByteSize > 128) (.invalidPlan "identificatore Oracle eccede 128 byte")
  | mysql =>
    failIf (name.length > 64) (.invalidPlan "identificatore MySQL eccede 64 caratteri")
  | sqlServer =>
    failIf (name.length > 128) (.invalidPlan "identificatore SQL Server oltre 128 caratteri")

/-- The characters around a quoted identifier. -/
def quotes : IdentifierDialect → Char × Char
  | postgres | oracle => ('"', '"')
  | mysql => ('`', '`')
  | sqlServer => ('[', ']')

/-- `name.replace(c, cc)`. -/
def doubled (c : Char) (name : List Char) : List Char :=
  name.flatMap fun d => if d = c then [c, c] else [d]

def quoteIdentifier (dialect : IdentifierDialect) (name : String) : Result String := do
  dialect.validateIdentifier name
  return .ofList (dialect.quotes.1 :: doubled dialect.quotes.2 name.toList ++ [dialect.quotes.2])

/-- What a server reads after the opening quote: the name up to a closing quote that is not
doubled, and the rest of the text. -/
def unquoteTail (c : Char) : List Char → Option (List Char × List Char)
  | [] => none
  | [d] => if d = c then some ([], []) else none
  | d :: e :: rest =>
    if d = c then
      if e = c then (unquoteTail c rest).map fun r => (c :: r.1, r.2) else some ([], e :: rest)
    else (unquoteTail c (e :: rest)).map fun r => (d :: r.1, r.2)

def unquote (dialect : IdentifierDialect) (text : String) : Option String :=
  match text.toList with
  | c :: rest =>
    if c = dialect.quotes.1 then
      match unquoteTail dialect.quotes.2 rest with
      | some (name, []) => some (.ofList name)
      | _ => none
    else none
  | [] => none

theorem unquoteTail_doubled (c : Char) (name : List Char) :
    unquoteTail c (doubled c name ++ [c]) = some (name, []) := by
  induction name with
  | nil => simp [doubled, unquoteTail]
  | cons d name ih =>
    rw [doubled, List.flatMap_cons, ← doubled]
    by_cases hd : d = c
    · simp [hd, unquoteTail, ih]
    · simp only [hd, if_false, List.cons_append, List.nil_append]
      cases htail : doubled c name ++ [c] with
      | nil => simp at htail
      | cons e rest =>
        rw [unquoteTail, if_neg hd, ← htail, ih]
        rfl

/-- **A quoted identifier is read as the name it quotes.** -/
theorem unquote_quote {dialect : IdentifierDialect} {name text : String}
    (h : dialect.quoteIdentifier name = .ok text) : dialect.unquote text = some name := by
  obtain ⟨-, -, h⟩ := bind_eq_ok.1 h
  obtain rfl := Except.ok.inj h
  simp [unquote, unquoteTail_doubled]

end IdentifierDialect

def quoteIdentifier (name : String) (dialect : DialectKind) : Result String :=
  dialect.identifier.quoteIdentifier name

/-! ## Spatial references -/

def Dimensions.label : Dimensions → String
  | xy => "xy"
  | xyz => "xyz"
  | xym => "xym"
  | xyzm => "xyzm"
  | unknown => "unknown"

namespace SpatialReference

/-- The declared SRID and dimensions against those of the EWKB. -/
def validate (reference : SpatialReference) : Result Unit := do
  let inspection ← Ewkb.inspectEwkbDetailed reference.ewkb (2 ^ 64 - 1) (2 ^ 64 - 1)
  match inspection.root.srid with
  | some embedded =>
    failIf (embedded ≠ reference.srid) (.invalidPlan
      ("SRID divergente: dichiarato " ++ toString reference.srid ++ ", embedded nell'EWKB " ++
        toString embedded ++ ". Ri-serializza l'EWKB con SRID " ++ toString reference.srid ++
        " o correggi la dichiarazione."))
  | none => .ok ()
  let embedded := GeometryValue.dimensionsLabel inspection.root
  failIf (reference.dimensions ≠ .unknown ∧ embedded ≠ reference.dimensions.label) (.invalidPlan
    ("dimensioni EWKB divergenti: dichiarato `" ++ reference.dimensions.label ++
      "`, embedded `" ++ embedded ++
      "`. Il consumer deve produrre EWKB coerente col contratto."))

end SpatialReference

namespace SpatialPolicy

def geographicSrids : List UInt32 := [4326, 4269, 4267, 4258, 4283]

def isGeographicSrid (srid : UInt32) : Bool := geographicSrids.contains srid

def postgresCastFor : SpatialSemantics → String
  | .geometry => "::geometry"
  | .geography => "::geography"

def validateOracle (predicate : SpatialPredicate) (reference : SpatialReference) : Result Unit := do
  failIf (reference.semantics = .geography ∧ isGeographicSrid reference.srid = false)
    (.invalidPlan "geography Oracle richiede un SRID geografico qualificato")
  match predicate with
  | .dWithin _ =>
    failIf (isGeographicSrid reference.srid = false) (.unsupported .oracle .prepare
      "DWithin Oracle in metri e qualificato soltanto per un SRID geografico noto")
  | _ => .ok ()

def validateDb2 (predicate : SpatialPredicate) (reference : SpatialReference) : Result Unit := do
  failIf (reference.semantics ≠ .geometry) (.unsupported .db2 .prepare
    "Db2 Spatial Analytics e qualificato soltanto con semantica geometry")
  match predicate with
  | .intersects | .contains | .within => .ok ()
  | .dWithin _ | .boundingBox => .error (.unsupported .db2 .prepare
      "il predicato spatial richiesto non e qualificato per Db2")

def validateSqlserver : SpatialPredicate → Result Unit
  | .dWithin _ => .error (.unsupported .sqlserver .prepare
      ("STDWithin non esiste in T-SQL, su nessuna delle due semantiche. La forma con" ++
        "              STDistance confronterebbe i metri del contratto con le unita del sistema di" ++
        "              riferimento su una colonna geometry: usa Intersects su un buffer costruito dal" ++
        "              chiamante."))
  | _ => .ok ()

def validatePostgres (predicate : SpatialPredicate) (reference : SpatialReference) : Result Unit :=
  match predicate, reference.semantics with
  | .boundingBox, .geography => .error (.unsupported .postgres .prepare
      ("BoundingBox con SpatialSemantics::Geography non supportato " ++
        "(operator && è solo geometry). Usa Intersects."))
  | .contains, .geography => .error (.unsupported .postgres .prepare
      ("ST_Contains non supportato per SpatialSemantics::Geography " ++
        "(PostGIS espone Contains solo per geometry). " ++
        "Riproietta su geometry o usa ST_Covers/ST_Intersects."))
  | .within, .geography => .error (.unsupported .postgres .prepare
      ("ST_Within non supportato per SpatialSemantics::Geography " ++
        "(PostGIS espone Within solo per geometry). " ++
        "Riproietta su geometry o usa ST_CoveredBy/ST_Intersects."))
  | .dWithin _, .geometry => failIf (isGeographicSrid reference.srid = true) (.invalidPlan
      ("DWithin con SpatialSemantics::Geometry su SRID geografico " ++ toString reference.srid ++
        " produrrebbe distanza in gradi (fuorviante rispetto al nome " ++
        "`distance_meters`). Usa SpatialSemantics::Geography per metri " ++
        "reali, oppure riproietta su un SRID planare."))
  | _, _ => .ok ()

def validateMysql : SpatialPredicate → Result Unit
  | .dWithin _ => .error (.unsupported .mysql .prepare
      ("DWithin non supportato da MySQL (no ST_DWithin nativo). " ++
        "Usa ST_Distance() < X come workaround via SQL raw."))
  | _ => .ok ()

def validatePredicate (provider : ProviderKind) (predicate : SpatialPredicate)
    (reference : SpatialReference) : Result Unit := do
  match predicate with
  | .dWithin distance =>
    failIf (¬ Ieee.isFinite distance ∨ Ieee.lt distance 0)
      (.invalidPlan "DWithin richiede distanza finita non-negativa")
  | _ => .ok ()
  match provider with
  | .postgres => validatePostgres predicate reference
  | .mysql => validateMysql predicate
  | .sqlserver => validateSqlserver predicate
  | .db2 => validateDb2 predicate reference
  | .oracle => validateOracle predicate reference
  | _ => .ok ()

end SpatialPolicy

/-! ## Probes -/

namespace SpatialProbe

def probeWithoutSrid : String :=
  "sonda spatial senza SRID esplicito: dichiararlo nel valore wkb o nell'EWKB"

def probeSridUnproven : String :=
  "confronto spatial con una sonda: il provider non verifica lo SRID della colonna prima " ++
    "dell'esecuzione"

def spatialValueOutsideSpatial : String :=
  "valore spatial confrontato fuori da una funzione o da un operatore spatial"

/-- The two uses of a probe in a predicate. -/
inductive ProbeUse where
  | function | boundingBox
  deriving DecidableEq, Repr

inductive ServerGuard where
  | postgresColumnTypmod | mysqlSrid
  deriving DecidableEq, Repr

def serverGuard (provider : ProviderKind) (_ : ProbeUse) : Option ServerGuard :=
  match provider with
  | .postgres => some .postgresColumnTypmod
  | .mysql => some .mysqlSrid
  | _ => none

/-- The rule of the probes for a compiler without a catalog; `none` is a missing SRID. -/
def admitProbe (provider : ProviderKind) (use : ProbeUse) (frame : Option UInt32) :
    Result ServerGuard := do
  failIf (frame = none) (.new .crs .prepare (some provider) probeWithoutSrid)
  okOr (serverGuard provider use) (.unsupported provider .prepare probeSridUnproven)

end SpatialProbe

end Plenora.Core
