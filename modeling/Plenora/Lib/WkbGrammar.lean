import Plenora.Lib.Machine

/-!
# The language of WKB and EWKB values

A value is a tree: a head (byte order, kind, dimensions, perhaps an SRID) and
positions, rings or members below it.  `Geometry.bytes` writes the tree down and
`Geometry.WellFormed` says which trees are values; the byte strings of the
language are the `bytes` of the well-formed ones.

    raw.length = 4 → (wordOfBytes order raw = w ↔ raw = wordBytes order w)   (wordOfBytes_eq_iff)
    raw.length = n * width ↔ raw is n positions of width bytes               (exists_positions)
-/

namespace Plenora.Lib.WkbGrammar

/-! ## Data model -/

inductive Kind where
  | point | lineString | polygon | multiPoint | multiLineString | multiPolygon
  | geometryCollection | circularString | compoundCurve | curvePolygon | multiCurve
  | multiSurface | polyhedralSurface | tin | triangle
  deriving DecidableEq, Repr

def Kind.code : Kind → UInt32
  | .point => 1
  | .lineString => 2
  | .polygon => 3
  | .multiPoint => 4
  | .multiLineString => 5
  | .multiPolygon => 6
  | .geometryCollection => 7
  | .circularString => 8
  | .compoundCurve => 9
  | .curvePolygon => 10
  | .multiCurve => 11
  | .multiSurface => 12
  | .polyhedralSurface => 15
  | .tin => 16
  | .triangle => 17

def Kind.name : Kind → String
  | .point => "point"
  | .lineString => "linestring"
  | .polygon => "polygon"
  | .multiPoint => "multipoint"
  | .multiLineString => "multilinestring"
  | .multiPolygon => "multipolygon"
  | .geometryCollection => "geometrycollection"
  | .circularString => "circularstring"
  | .compoundCurve => "compoundcurve"
  | .curvePolygon => "curvepolygon"
  | .multiCurve => "multicurve"
  | .multiSurface => "multisurface"
  | .polyhedralSurface => "polyhedralsurface"
  | .tin => "tin"
  | .triangle => "triangle"

/-- A kind made of members rather than of positions. -/
def Kind.collects : Kind → Bool
  | .point | .lineString | .circularString | .polygon | .triangle => false
  | _ => true

theorem Kind.eq_of_not_collects {kind : Kind} (h : kind.collects = false) :
    kind = .point ∨ kind = .lineString ∨ kind = .circularString ∨ kind = .polygon ∨
      kind = .triangle := by
  cases kind <;> simp_all [Kind.collects]

/-- The members a collection admits. -/
def Kind.admits : Kind → Kind → Bool
  | .multiPoint, .point => true
  | .multiLineString, .lineString => true
  | .multiPolygon, .polygon | .polyhedralSurface, .polygon => true
  | .compoundCurve, .lineString | .compoundCurve, .circularString => true
  | .curvePolygon, .lineString | .curvePolygon, .circularString
  | .curvePolygon, .compoundCurve => true
  | .multiCurve, .lineString | .multiCurve, .circularString | .multiCurve, .compoundCurve => true
  | .multiSurface, .polygon | .multiSurface, .curvePolygon => true
  | .tin, .triangle => true
  | .geometryCollection, _ => true
  | _, _ => false

/-- How a type word marks the dimensions: by thousands, or by its high bits. -/
inductive Form where
  | iso | extended
  deriving DecidableEq, Repr

/-- The type word of a kind with its marks. -/
def typeWord (form : Form) (kind : Kind) (hasZ hasM hasSrid : Bool) : UInt32 :=
  match form with
  | .iso => kind.code + (if hasZ then 1000 else 0) + (if hasM then 2000 else 0)
  | .extended =>
    kind.code + (if hasZ then 0x80000000 else 0) + (if hasM then 0x40000000 else 0) +
      (if hasSrid then 0x20000000 else 0)

structure Head where
  littleEndian : Bool
  form : Form
  kind : Kind
  hasZ : Bool
  hasM : Bool
  srid : Option UInt32
  deriving DecidableEq, Repr

namespace Head

/-- The bytes of a position. -/
def width (head : Head) : Nat := 8 * (2 + head.hasZ.toNat + head.hasM.toNat)

def word (head : Head) : UInt32 :=
  typeWord head.form head.kind head.hasZ head.hasM head.srid.isSome

/-- An SRID stands on the outermost geometry only, beside a type word of the extended form. -/
structure Admitted (head : Head) (outer : Bool) : Prop where
  extended : head.srid.isSome = true → head.form = .extended
  outer : head.srid.isSome = true → outer = true

end Head

/-! ## Writing -/

/-- The four bytes of a word. -/
def wordBytes (littleEndian : Bool) (w : UInt32) : List UInt8 :=
  if littleEndian then leBytes 4 w.toNat else (leBytes 4 w.toNat).reverse

namespace Head

def bytes (head : Head) : List UInt8 :=
  (if head.littleEndian then [1] else [0]) ++ wordBytes head.littleEndian head.word ++
    match head.srid with
    | some srid => wordBytes head.littleEndian srid
    | none => []

/-- A count in the byte order of the geometry. -/
def count (head : Head) (n : Nat) : List UInt8 := wordBytes head.littleEndian (UInt32.ofNat n)

/-- The number of positions, then the positions. -/
def positions (head : Head) (ps : List (List UInt8)) : List UInt8 :=
  head.count ps.length ++ ps.flatten

end Head

/-- A geometry; a position is so many bytes, in the byte order of its head. -/
inductive Geometry where
  | point (head : Head) (position : List UInt8)
  | line (head : Head) (positions : List (List UInt8))
  | area (head : Head) (rings : List (List (List UInt8)))
  | collection (head : Head) (members : List Geometry)

namespace Geometry

def head : Geometry → Head
  | point head _ => head
  | line head _ => head
  | area head _ => head
  | collection head _ => head

mutual

def bytes : Geometry → List UInt8
  | point head position => head.bytes ++ position
  | line head positions => head.bytes ++ head.positions positions
  | area head rings =>
    head.bytes ++ (head.count rings.length ++ (rings.map head.positions).flatten)
  | collection head members => head.bytes ++ (head.count members.length ++ bytesAll members)

def bytesAll : List Geometry → List UInt8
  | [] => []
  | g :: gs => g.bytes ++ bytesAll gs

end

/-- What follows the head. -/
def body : Geometry → List UInt8
  | point _ position => position
  | line head positions => head.positions positions
  | area head rings => head.count rings.length ++ (rings.map head.positions).flatten
  | collection head members => head.count members.length ++ bytesAll members

theorem bytes_eq (g : Geometry) : g.bytes = g.head.bytes ++ g.body := by
  cases g <;> simp only [bytes, head, body]

/-! ## Measures -/

mutual

/-- One for each geometry, each ring and each position. -/
def components : Geometry → Nat
  | point _ _ => 1 + 1
  | line _ positions => 1 + positions.length
  | area _ rings => 1 + (rings.length + (rings.map List.length).sum)
  | collection _ members => 1 + componentsAll members

def componentsAll : List Geometry → Nat
  | [] => 0
  | g :: gs => g.components + componentsAll gs

end

mutual

/-- The levels of nesting, 1 for a geometry without members. -/
def levels : Geometry → Nat
  | point _ _ | line _ _ | area _ _ => 1
  | collection _ members => 1 + levelsAll members

def levelsAll : List Geometry → Nat
  | [] => 0
  | g :: gs => max g.levels (levelsAll gs)

end

mutual

/-- Whether some geometry of the tree has the mark. -/
def anyHead (mark : Head → Bool) : Geometry → Bool
  | point head _ => mark head
  | line head _ => mark head
  | area head _ => mark head
  | collection head members => mark head || anyHeadAll mark members

def anyHeadAll (mark : Head → Bool) : List Geometry → Bool
  | [] => false
  | g :: gs => g.anyHead mark || anyHeadAll mark gs

end

mutual

/-- The coordinates of the tree, position after position. -/
def coordinates : Geometry → List (List UInt8)
  | point _ position => [position]
  | line _ positions => positions
  | area _ rings => rings.flatten
  | collection _ members => coordinatesAll members

def coordinatesAll : List Geometry → List (List UInt8)
  | [] => []
  | g :: gs => g.coordinates ++ coordinatesAll gs

end

/-! ## Well-formed values -/

/-- So many positions, each of the given width. -/
structure Positions (width : Nat) (ps : List (List UInt8)) : Prop where
  counted : ps.length < 2 ^ 32
  wide : ∀ p ∈ ps, p.length = width

/-- At least four positions, the last like the first. -/
structure Ring (width : Nat) (ps : List (List UInt8)) : Prop extends Positions width ps where
  four : 4 ≤ ps.length
  closed : ps.head? = ps.getLast?

/-- A member is of a kind its collection admits, in the dimensions of the collection. -/
structure Fits (container member : Head) : Prop where
  kind : container.kind.admits member.kind = true
  hasZ : member.hasZ = container.hasZ
  hasM : member.hasM = container.hasM

/-- The values of the language; `outer` holds of the outermost geometry. -/
inductive WellFormed : Bool → Geometry → Prop
  | point {outer : Bool} {head : Head} {position : List UInt8} :
    head.Admitted outer → head.kind = .point → position.length = head.width →
    WellFormed outer (.point head position)
  | lineString {outer : Bool} {head : Head} {positions : List (List UInt8)} :
    head.Admitted outer → head.kind = .lineString → Positions head.width positions →
    positions.length ≠ 1 → WellFormed outer (.line head positions)
  | circularString {outer : Bool} {head : Head} {positions : List (List UInt8)} :
    head.Admitted outer → head.kind = .circularString → Positions head.width positions →
    positions.length = 0 ∨ 3 ≤ positions.length ∧ positions.length % 2 = 1 →
    WellFormed outer (.line head positions)
  | area {outer : Bool} {head : Head} {rings : List (List (List UInt8))} :
    head.Admitted outer → head.kind = .polygon ∨ head.kind = .triangle ∧ rings.length ≤ 1 →
    rings.length < 2 ^ 32 → (∀ ring ∈ rings, Ring head.width ring) →
    WellFormed outer (.area head rings)
  | collection {outer : Bool} {head : Head} {members : List Geometry} :
    head.Admitted outer → head.kind.collects = true → members.length < 2 ^ 32 →
    (∀ member ∈ members, WellFormed false member) →
    (∀ member ∈ members, Fits head member.head) →
    WellFormed outer (.collection head members)

theorem levels_pos (g : Geometry) : 0 < g.levels := by
  cases g <;> simp only [levels] <;> omega

theorem exists_components (g : Geometry) : ∃ n, g.components = 1 + n := by
  cases g <;> exact ⟨_, by rw [components]⟩

theorem levelsAll_le_iff {gs : List Geometry} {n : Nat} :
    levelsAll gs ≤ n ↔ ∀ g ∈ gs, g.levels ≤ n := by
  induction gs with
  | nil => exact ⟨fun _ g hg => (by cases hg), fun _ => Nat.zero_le n⟩
  | cons g gs ih => rw [levelsAll, max_le_iff, ih, List.forall_mem_cons]

theorem five_le_length (head : Head) : 5 ≤ head.bytes.length := by
  unfold Head.bytes
  cases head.littleEndian <;> simp [wordBytes]

/-- Every member takes at least its head. -/
theorem length_bytesAll (gs : List Geometry) : gs.length * 5 ≤ (bytesAll gs).length := by
  induction gs with
  | nil => exact Nat.zero_le _
  | cons g gs ih =>
    have := five_le_length g.head
    rw [bytesAll, bytes_eq, List.length_append, List.length_append, List.length_cons]
    omega

theorem WellFormed.admitted {outer : Bool} {g : Geometry} (h : g.WellFormed outer) :
    g.head.Admitted outer := by
  cases h with
  | point h => exact h
  | lineString h => exact h
  | circularString h => exact h
  | area h => exact h
  | collection h => exact h

/-- A geometry without members is one level, and its head the only one. -/
theorem WellFormed.simple {outer : Bool} {g : Geometry} (h : g.WellFormed outer)
    (hsimple : g.head.kind.collects = false) :
    g.levels = 1 ∧ ∀ mark, g.anyHead mark = mark g.head := by
  cases h with
  | collection _ hcollects => exact absurd (hsimple.symm.trans hcollects) (by decide)
  | _ => exact ⟨by rw [levels], fun mark => by rw [anyHead]; rfl⟩

theorem WellFormed.members {outer : Bool} {g : Geometry} (h : g.WellFormed outer)
    (hcollects : g.head.kind.collects = true) :
    ∃ members, g = .collection g.head members ∧ members.length < 2 ^ 32 ∧
      (∀ member ∈ members, WellFormed false member) ∧
      ∀ member ∈ members, Fits g.head member.head := by
  cases h with
  | point _ hk => exact absurd (hk ▸ hcollects) (by decide)
  | lineString _ hk => exact absurd (hk ▸ hcollects) (by decide)
  | circularString _ hk => exact absurd (hk ▸ hcollects) (by decide)
  | area _ hk => rcases hk with hk | ⟨hk, -⟩ <;> exact absurd (hk ▸ hcollects) (by decide)
  | collection _ _ hn hall hfits => exact ⟨_, rfl, hn, hall, hfits⟩

end Geometry

/-! ## Words and positions -/

theorem leBytes_natOfLe (raw : List UInt8) : leBytes raw.length (natOfLe raw) = raw := by
  induction raw with
  | nil => rfl
  | cons b bs ih =>
    have hlow : UInt8.ofNat (b.toNat + 256 * natOfLe bs) = b := by
      apply UInt8.toNat.inj
      have := b.toNat_lt
      rw [UInt8.toNat_ofNat']
      omega
    have hhigh : (b.toNat + 256 * natOfLe bs) / 256 = natOfLe bs := by
      have := b.toNat_lt
      omega
    rw [List.length_cons, natOfLe, leBytes, hlow, hhigh, ih]

theorem natOfLe_lt (raw : List UInt8) : natOfLe raw < 256 ^ raw.length := by
  induction raw with
  | nil => exact Nat.one_pos
  | cons b bs ih =>
    have := b.toNat_lt
    rw [List.length_cons, natOfLe, Nat.pow_succ]
    omega

@[simp] theorem length_wordBytes (littleEndian : Bool) (w : UInt32) :
    (wordBytes littleEndian w).length = 4 := by
  cases littleEndian <;> simp [wordBytes]

theorem wordOfBytes_wordBytes (littleEndian : Bool) (w : UInt32) :
    wordOfBytes littleEndian (wordBytes littleEndian w) = w := by
  have hword : UInt32.ofNat (natOfLe (leBytes 4 w.toNat)) = w := by
    apply UInt32.toNat.inj
    have := w.toNat_lt
    rw [natOfLe_leBytes, UInt32.toNat_ofNat']
    omega
  cases littleEndian
  · simpa [wordOfBytes, wordBytes] using hword
  · simpa [wordOfBytes, wordBytes] using hword

/-- **The bytes of a word.** -/
theorem wordOfBytes_eq_iff {littleEndian : Bool} {raw : List UInt8} {w : UInt32}
    (h : raw.length = 4) : wordOfBytes littleEndian raw = w ↔ raw = wordBytes littleEndian w := by
  refine ⟨?_, fun hraw => hraw ▸ wordOfBytes_wordBytes littleEndian w⟩
  rintro rfl
  have hback (bytes : List UInt8) (hlen : bytes.length = 4) :
      leBytes 4 (UInt32.ofNat (natOfLe bytes)).toNat = bytes := by
    have hlt := natOfLe_lt bytes
    rw [hlen] at hlt
    rw [UInt32.toNat_ofNat', Nat.mod_eq_of_lt (by simpa using hlt), ← hlen, leBytes_natOfLe]
  cases littleEndian
  · show raw = (leBytes 4 (UInt32.ofNat (natOfLe raw.reverse)).toNat).reverse
    rw [hback raw.reverse (by rw [List.length_reverse, h]), List.reverse_reverse]
  · exact (hback raw h).symm

/-- **So many bytes are so many positions.** -/
theorem exists_positions {n width : Nat} {raw : List UInt8} (h : raw.length = n * width) :
    ∃ ps : List (List UInt8), ps.length = n ∧ (∀ p ∈ ps, p.length = width) ∧ ps.flatten = raw := by
  induction n generalizing raw with
  | zero =>
    refine ⟨[], rfl, fun p hp => (by cases hp), ?_⟩
    rw [Nat.zero_mul, List.length_eq_zero_iff] at h
    exact h.symm
  | succ n ih =>
    rw [Nat.succ_mul] at h
    obtain ⟨ps, hlen, hwide, hflat⟩ := @ih (raw.drop width) (by rw [List.length_drop]; omega)
    refine ⟨raw.take width :: ps, by rw [List.length_cons, hlen], ?_, ?_⟩
    · refine List.forall_mem_cons.2 ⟨?_, hwide⟩
      rw [List.length_take]
      omega
    · rw [List.flatten_cons, hflat, List.take_append_drop]

theorem length_flatten_positions {width : Nat} {ps : List (List UInt8)}
    (h : ∀ p ∈ ps, p.length = width) : ps.flatten.length = ps.length * width := by
  induction ps with
  | nil => simp
  | cons p ps ih =>
    obtain ⟨hp, hps⟩ := List.forall_mem_cons.1 h
    rw [List.flatten_cons, List.length_append, hp, ih hps, List.length_cons, Nat.succ_mul]
    omega

/-- The first and the last `width` bytes are the first and the last position. -/
theorem closed_iff {width : Nat} {ps : List (List UInt8)} (hne : ps ≠ [])
    (h : ∀ p ∈ ps, p.length = width) :
    ps.flatten.take width = ps.flatten.drop (ps.flatten.length - width) ↔
      ps.head? = ps.getLast? := by
  obtain ⟨first, rest, rfl⟩ := List.exists_cons_of_ne_nil hne
  have hfirst : (first :: rest).flatten.take width = first := by
    rw [List.flatten_cons, ← h first List.mem_cons_self, List.take_left]
  obtain ⟨init, last, hlast⟩ := (List.eq_nil_or_concat (first :: rest)).resolve_left hne
  rw [List.concat_eq_append] at hlast
  have hdrop : (first :: rest).flatten.drop ((first :: rest).flatten.length - width) = last := by
    have hlen : last.length = width := h last (by rw [hlast]; simp)
    rw [hlast, List.flatten_append, List.flatten_singleton, List.length_append, hlen,
      Nat.add_sub_cancel, List.drop_left]
  rw [hfirst, hdrop, List.head?_cons, hlast, List.getLast?_concat, Option.some.injEq]

end Plenora.Lib.WkbGrammar
