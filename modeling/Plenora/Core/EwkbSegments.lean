import Plenora.Core.Ewkb
import Plenora.Lib.WkbGrammar

/-!
# The geometries a scan passes

A byte string the scanner accepts is a sequence of segments, one for each geometry in the order
of the bytes: its header, and what follows it up to the next header.

    s.geometry d = .ok ((n, h), s') ↔ ∃ seg cost, seg.Holds mode n cost ∧ …   (geometry_iff)
    scanEwkb bytes c d mode = .ok (i, patches) ↔
      ∃ segs …, Walk mode d [] 1 segs deepest cost ∧ bytes = bytesOf segs ∧ … (scanEwkb_iff)
-/

namespace Plenora.Core.EwkbSegments

open Plenora.Lib Plenora.Lib.WkbGrammar Plenora.Core.Ewkb

/-! ## Type words -/

/-- The code of a type word, without its flags. -/
def code (word : UInt32) : UInt32 := word &&& 0x0fffffff

/-- The type that a word names, without the thousands of the ISO form. -/
def baseType (word : UInt32) : UInt32 := (Scanner.isoDimensions (code word)).1

def marksZ (word : UInt32) : Bool :=
  (word &&& 0x80000000 != 0) || (Scanner.isoDimensions (code word)).2.1

def marksM (word : UInt32) : Bool :=
  (word &&& 0x40000000 != 0) || (Scanner.isoDimensions (code word)).2.2

def carriesSrid (word : UInt32) : Bool := word &&& 0x20000000 != 0

/-- The types made of members. -/
abbrev Collects (base : UInt32) : Prop :=
  (4 ≤ base ∧ base ≤ 7) ∨ (9 ≤ base ∧ base ≤ 12) ∨ base = 15 ∨ base = 16

/-! ## Segments -/

/-- A geometry without its members. -/
structure Segment where
  littleEndian : Bool
  word : UInt32
  srid : Option UInt32
  body : List UInt8
  deriving DecidableEq, Repr

namespace Segment

def order (seg : Segment) : List UInt8 := if seg.littleEndian then [1] else [0]

def sridBytes (seg : Segment) : List UInt8 :=
  match seg.srid with
  | some srid => wordBytes seg.littleEndian srid
  | none => []

def bytes (seg : Segment) : List UInt8 :=
  seg.order ++ (wordBytes seg.littleEndian seg.word ++ (seg.sridBytes ++ seg.body))

def hasZ (mode : DimensionMode) (seg : Segment) : Bool :=
  marksZ seg.word || mode = .forceUnmarkedZ

def hasM (seg : Segment) : Bool := marksM seg.word

/-- The numbers of a position. -/
def dimensions (mode : DimensionMode) (seg : Segment) : Nat :=
  2 + (seg.hasZ mode).toNat + seg.hasM.toNat

def header (mode : DimensionMode) (seg : Segment) : Header where
  baseType := baseType seg.word
  dimensions := seg.dimensions mode
  littleEndian := seg.littleEndian
  hasZ := seg.hasZ mode
  hasM := seg.hasM
  srid := seg.srid

/-- What a scan would write over the type word of a segment, read at `offset`. -/
def patches (mode : DimensionMode) (offset : Nat) (seg : Segment) : List TypePatch :=
  (if mode = .forceUnmarkedZ ∧ ¬ marksZ seg.word then
    [{ offset, littleEndian := seg.littleEndian, typeWord := seg.word ||| 0x80000000 }]
  else []) ++
  (if mode = .extendedForm ∧ ((Scanner.isoDimensions (code seg.word)).2.1 ∨
      (Scanner.isoDimensions (code seg.word)).2.2) then
    [{ offset, littleEndian := seg.littleEndian
       typeWord := (seg.word &&& 0xf0000000) ||| baseType seg.word
         ||| (if seg.hasZ mode then 0x80000000 else 0)
         ||| (if seg.hasM then 0x40000000 else 0) }]
  else [])

end Segment

/-- So many rings, each its number of positions and the positions. -/
inductive IsRings (littleEndian : Bool) (dimensions : Nat) : Nat → List UInt8 → Nat → Prop
  | none : IsRings littleEndian dimensions 0 [] 0
  | ring {n cost : Nat} {points : UInt32} {raw rest : List UInt8} :
    raw.length = points.toNat * dimensions * 8 → IsRings littleEndian dimensions n rest cost →
    IsRings littleEndian dimensions (n + 1) (wordBytes littleEndian points ++ (raw ++ rest))
      (points.toNat + cost)

/-- The bytes behind the header of a geometry, the number of its members and the components it
counts for. -/
inductive IsBody (littleEndian : Bool) (dimensions : Nat) :
    UInt32 → List UInt8 → Nat → Nat → Prop
  | point {base : UInt32} {raw : List UInt8} : base = 1 → raw.length = dimensions * 8 →
    IsBody littleEndian dimensions base raw 0 1
  | line {base points : UInt32} {raw : List UInt8} : base = 2 ∨ base = 8 →
    raw.length = points.toNat * dimensions * 8 →
    IsBody littleEndian dimensions base (wordBytes littleEndian points ++ raw) 0 points.toNat
  | area {base count : UInt32} {raw : List UInt8} {cost : Nat} : base = 3 ∨ base = 17 →
    IsRings littleEndian dimensions count.toNat raw cost →
    IsBody littleEndian dimensions base (wordBytes littleEndian count ++ raw) 0
      (count.toNat + cost)
  | members {base members : UInt32} : Collects base →
    IsBody littleEndian dimensions base (wordBytes littleEndian members) members.toNat 0

/-- The segment is a geometry, with the members that follow it and the components it counts for
besides itself. -/
structure Segment.Holds (mode : DimensionMode) (seg : Segment) (children cost : Nat) : Prop where
  unboxed : seg.word &&& 0x10000000 = 0
  srid : seg.srid.isSome = carriesSrid seg.word
  body : IsBody seg.littleEndian (seg.dimensions mode) (baseType seg.word) seg.body children cost

/-! ## What reading leaves -/

def rest (s : Scanner) : List UInt8 := s.bytes.drop s.offset

/-- Inside its bytes and its budget, both in machine words. -/
structure Sound (s : Scanner) : Prop where
  within : s.offset ≤ s.bytes.length
  short : s.offset < 2 ^ 64
  paid : s.components ≤ s.maxComponents
  counted : s.components < 2 ^ 64

def pass (s : Scanner) (n cost : Nat) : Scanner :=
  { s with offset := s.offset + n, components := s.components + cost }

/-- `raw` is ahead of `s`, and `s'` stands behind it. -/
structure Passes (s s' : Scanner) (raw : List UInt8) (cost : Nat) : Prop where
  rest : rest s = raw ++ rest s'
  pass : s' = pass s raw.length cost
  sound : Sound s'

theorem pass_pass (s : Scanner) (m n a b : Nat) :
    pass (pass s m a) n b = pass s (m + n) (a + b) := by
  simp [pass, Nat.add_assoc]

theorem Passes.mode {s s' : Scanner} {raw : List UInt8} {cost : Nat} (h : Passes s s' raw cost) :
    s'.dimensionMode = s.dimensionMode := by
  rw [h.pass]
  rfl

theorem rest_pass {s : Scanner} {x y : List UInt8} (cost : Nat) (h : rest s = x ++ y) :
    rest (pass s x.length cost) = y := by
  show s.bytes.drop (s.offset + x.length) = y
  rw [← List.drop_drop]
  show (rest s).drop x.length = y
  rw [h, List.drop_left]

theorem passes_nil {s s' : Scanner} (hs : Sound s) : Passes s s' [] 0 ↔ s' = s := by
  constructor
  · exact fun h => h.pass
  · rintro rfl
    exact ⟨rfl, rfl, hs⟩

/-- **Pieces follow each other.** -/
theorem passes_append {s s₂ : Scanner} {x y : List UInt8} {a b : Nat} :
    Passes s s₂ (x ++ y) (a + b) ↔ ∃ s₁, Passes s s₁ x a ∧ Passes s₁ s₂ y b := by
  constructor
  · intro h
    have hrest := h.rest
    have hpass := h.pass
    have hsound := h.sound
    rw [List.append_assoc] at hrest
    rw [List.length_append, ← pass_pass] at hpass
    rw [hpass] at hsound
    have hrest₁ := rest_pass a hrest
    refine ⟨pass s x.length a, ⟨?_, rfl, ?_⟩, ⟨hrest₁, hpass, h.sound⟩⟩
    · rw [hrest₁, hrest]
    · have hwithin := hsound.within
      have hshort := hsound.short
      have hpaid := hsound.paid
      have hcounted := hsound.counted
      dsimp only [pass] at hwithin hshort hpaid hcounted
      refine ⟨?_, ?_, ?_, ?_⟩
      · show s.offset + x.length ≤ s.bytes.length
        omega
      · show s.offset + x.length < 2 ^ 64
        omega
      · show s.components + a ≤ s.maxComponents
        omega
      · show s.components + a < 2 ^ 64
        omega
  · rintro ⟨s₁, h₁, h₂⟩
    refine ⟨?_, ?_, h₂.sound⟩
    · rw [h₁.rest, h₂.rest, List.append_assoc]
    · rw [List.length_append, ← pass_pass, ← h₁.pass]
      exact h₂.pass

/-! ## Steps -/

section Steps

variable {s : Scanner} (hs : Sound s)

include hs

theorem take_iff {s' : Scanner} {n : Nat} {raw : List UInt8} :
    s.take n = .ok (raw, s') ↔ raw.length = n ∧ Passes s s' raw 0 := by
  constructor
  · intro h
    obtain ⟨hraw, rfl, hshort, hwithin⟩ := Scanner.take_spec h
    have hlength : raw.length = n := by
      rw [hraw, List.length_take, List.length_drop]
      omega
    refine ⟨hlength, ?_, ?_, hwithin, hshort, hs.paid, hs.counted⟩
    · show rest s = raw ++ s.bytes.drop (s.offset + n)
      rw [hraw, ← List.drop_drop]
      exact (List.take_append_drop n _).symm
    · rw [hlength]
      rfl
  · rintro ⟨rfl, h⟩
    have hwithin := h.sound.within
    have hshort := h.sound.short
    rw [h.pass] at hwithin hshort
    dsimp only [pass] at hwithin hshort
    have htake : (s.bytes.drop s.offset).take raw.length = raw := by
      show (rest s).take raw.length = raw
      rw [h.rest, List.take_left]
    unfold Scanner.take
    rw [(checkedAdd_eq_some (c := s.offset + raw.length)).2 ⟨hshort, rfl⟩, okOr_some, ok_bind,
      failIf_neg (by omega), ok_bind, htake, h.pass]
    rfl

theorem u32_iff {s' : Scanner} {littleEndian : Bool} {w : UInt32} :
    s.u32 littleEndian = .ok (w, s') ↔ Passes s s' (wordBytes littleEndian w) 0 := by
  unfold Scanner.u32
  simp only [bind_eq_ok, Except.ok.injEq, Prod.mk.injEq, Prod.exists, take_iff hs]
  constructor
  · rintro ⟨raw, s₁, ⟨hlen, hpasses⟩, hw, rfl⟩
    rwa [(wordOfBytes_eq_iff hlen).1 hw] at hpasses
  · intro h
    exact ⟨_, s', ⟨length_wordBytes littleEndian w, h⟩, wordOfBytes_wordBytes littleEndian w, rfl⟩

theorem addComponents_iff {s' : Scanner} {n : Nat} :
    s.addComponents n = .ok s' ↔ Passes s s' [] n := by
  unfold Scanner.addComponents
  simp only [bind_eq_ok, okOr_eq_ok, checkedAdd_eq_some, failIf_eq_ok, exists_const,
    Except.ok.injEq]
  constructor
  · rintro ⟨c, ⟨hcounted, rfl⟩, hpaid, rfl⟩
    exact ⟨rfl, rfl, hs.within, hs.short, not_lt.1 hpaid, hcounted⟩
  · intro h
    have hpass := h.pass
    have hpaid := h.sound.paid
    have hcounted := h.sound.counted
    rw [hpass] at hpaid hcounted
    exact ⟨_, ⟨hcounted, rfl⟩, not_lt.2 hpaid, hpass.symm⟩

theorem byteOrder_iff {s' : Scanner} {littleEndian : Bool} :
    s.byteOrder = .ok (littleEndian, s') ↔
      Passes s s' (if littleEndian then [1] else [0]) 0 := by
  unfold Scanner.byteOrder
  simp only [bind_eq_ok, Prod.exists, take_iff hs]
  constructor
  · rintro ⟨raw, s₁, ⟨-, hpasses⟩, h⟩
    split at h
    next => cases h; exact hpasses
    next => cases h; exact hpasses
    next => cases h
  · intro h
    refine ⟨_, s', ⟨?_, h⟩, ?_⟩
    · cases littleEndian <;> rfl
    · cases littleEndian <;> rfl

theorem coordinates_iff {s' : Scanner} {points dimensions : Nat} :
    s.coordinates points dimensions = .ok s' ↔
      ∃ raw, raw.length = points * dimensions * 8 ∧ Passes s s' raw points := by
  unfold Scanner.coordinates
  simp only [bind_eq_ok, okOr_eq_ok, Option.bind_eq_some_iff, checkedMul_eq_some, Prod.exists,
    Except.ok.injEq, addComponents_iff hs]
  constructor
  · rintro ⟨s₁, hparts, bytes, ⟨_, ⟨-, rfl⟩, -, rfl⟩, raw, s₂, htake, rfl⟩
    obtain ⟨hlength, hraw⟩ := (take_iff hparts.sound).1 htake
    refine ⟨raw, hlength, ?_⟩
    rw [← List.nil_append raw, ← Nat.add_zero points]
    exact passes_append.2 ⟨s₁, hparts, hraw⟩
  · rintro ⟨raw, hlength, h⟩
    have hshort := h.sound.short
    rw [h.pass] at hshort
    dsimp only [pass] at hshort
    rw [← List.nil_append raw, ← Nat.add_zero points] at h
    obtain ⟨s₁, hparts, hraw⟩ := passes_append.1 h
    refine ⟨s₁, hparts, _, ⟨_, ⟨?_, rfl⟩, ?_, rfl⟩, raw, s', ?_, rfl⟩
    · omega
    · omega
    · exact (take_iff hparts.sound).2 ⟨hlength, hraw⟩

end Steps

theorem rings_iff {littleEndian : Bool} {dimensions n : Nat} {s s' : Scanner} (hs : Sound s) :
    Scanner.rings littleEndian dimensions n s = .ok s' ↔
      ∃ raw cost, IsRings littleEndian dimensions n raw cost ∧ Passes s s' raw cost := by
  induction n generalizing s with
  | zero =>
    rw [Scanner.rings, Except.ok.injEq]
    constructor
    · rintro rfl
      exact ⟨[], 0, .none, (passes_nil hs).2 rfl⟩
    · rintro ⟨_, _, ⟨⟩, h⟩
      exact ((passes_nil hs).1 h).symm
  | succ n ih =>
    simp only [Scanner.rings, bind_eq_ok, Prod.exists, u32_iff hs]
    constructor
    · rintro ⟨points, s₁, hword, s₂, hcoordinates, hrings⟩
      obtain ⟨raw, hlength, hraw⟩ := (coordinates_iff hword.sound).1 hcoordinates
      obtain ⟨more, cost, hmore, hpasses⟩ := (ih hraw.sound).1 hrings
      refine ⟨_, _, .ring hlength hmore, ?_⟩
      rw [← Nat.zero_add (points.toNat + cost)]
      exact passes_append.2 ⟨s₁, hword, passes_append.2 ⟨s₂, hraw, hpasses⟩⟩
    · rintro ⟨_, _, hrings, h⟩
      cases hrings with
      | @ring _ cost points raw more hlength hmore =>
        rw [← Nat.zero_add (points.toNat + cost)] at h
        obtain ⟨s₁, hword, h⟩ := passes_append.1 h
        obtain ⟨s₂, hraw, hpasses⟩ := passes_append.1 h
        exact ⟨points, s₁, hword, s₂, (coordinates_iff hword.sound).2 ⟨raw, hlength, hraw⟩,
          (ih hraw.sound).2 ⟨more, cost, hmore, hpasses⟩⟩

theorem body_iff {s s' : Scanner} {header : Header} {children : Nat} (hs : Sound s) :
    s.body header = .ok (children, s') ↔
      ∃ raw cost, IsBody header.littleEndian header.dimensions header.baseType raw children cost ∧
        Passes s s' raw cost := by
  unfold Scanner.body
  dsimp only
  by_cases h1 : header.baseType = 1
  · rw [if_pos h1]
    simp only [bind_eq_ok, Except.ok.injEq, Prod.mk.injEq, coordinates_iff hs]
    constructor
    · rintro ⟨_, ⟨raw, hlength, h⟩, rfl, rfl⟩
      exact ⟨raw, 1, .point h1 (by rw [hlength, Nat.one_mul]), h⟩
    · rintro ⟨raw, cost, hbody, h⟩
      cases hbody with
      | point _ hlength => exact ⟨s', ⟨raw, by rw [hlength, Nat.one_mul], h⟩, rfl, rfl⟩
      | line hbase => rw [h1] at hbase; exact absurd hbase (by decide)
      | area hbase => rw [h1] at hbase; exact absurd hbase (by decide)
      | members hbase => rw [h1] at hbase; exact absurd hbase (by decide)
  rw [if_neg h1]
  by_cases h2 : header.baseType = 2 ∨ header.baseType = 8
  · rw [if_pos h2]
    simp only [bind_eq_ok, Except.ok.injEq, Prod.mk.injEq, Prod.exists, u32_iff hs]
    constructor
    · rintro ⟨points, s₁, hword, _, hcoordinates, rfl, rfl⟩
      obtain ⟨raw, hlength, hraw⟩ := (coordinates_iff hword.sound).1 hcoordinates
      refine ⟨_, _, .line h2 hlength, ?_⟩
      rw [← Nat.zero_add points.toNat]
      exact passes_append.2 ⟨s₁, hword, hraw⟩
    · rintro ⟨raw, cost, hbody, h⟩
      cases hbody with
      | point hbase => exact absurd hbase h1
      | @line points raw _ hlength =>
        rw [← Nat.zero_add points.toNat] at h
        obtain ⟨s₁, hword, hraw⟩ := passes_append.1 h
        exact ⟨points, s₁, hword, s', (coordinates_iff hword.sound).2 ⟨raw, hlength, hraw⟩,
          rfl, rfl⟩
      | area hbase => rcases h2 with h2 | h2 <;> rw [h2] at hbase <;> exact absurd hbase (by decide)
      | members hbase =>
        rcases h2 with h2 | h2 <;> rw [h2] at hbase <;> exact absurd hbase (by decide)
  rw [if_neg h2]
  by_cases h3 : header.baseType = 3 ∨ header.baseType = 17
  · rw [if_pos h3]
    simp only [bind_eq_ok, Except.ok.injEq, Prod.mk.injEq, Prod.exists, u32_iff hs]
    constructor
    · rintro ⟨count, s₁, hword, s₂, hparts, _, hrings, rfl, rfl⟩
      have hparts := (addComponents_iff hword.sound).1 hparts
      obtain ⟨raw, cost, hraw, hpasses⟩ := (rings_iff hparts.sound).1 hrings
      refine ⟨_, _, .area h3 hraw, ?_⟩
      rw [← Nat.zero_add (count.toNat + cost), ← List.nil_append raw]
      exact passes_append.2 ⟨s₁, hword, passes_append.2 ⟨s₂, hparts, hpasses⟩⟩
    · rintro ⟨raw, cost, hbody, h⟩
      cases hbody with
      | point hbase => exact absurd hbase h1
      | line hbase => exact absurd hbase h2
      | @area count raw cost _ hraw =>
        rw [← Nat.zero_add (count.toNat + cost), ← List.nil_append raw] at h
        obtain ⟨s₁, hword, h⟩ := passes_append.1 h
        obtain ⟨s₂, hparts, hpasses⟩ := passes_append.1 h
        exact ⟨count, s₁, hword, s₂, (addComponents_iff hword.sound).2 hparts, s',
          (rings_iff hparts.sound).2 ⟨raw, cost, hraw, hpasses⟩, rfl, rfl⟩
      | members hbase =>
        rcases h3 with h3 | h3 <;> rw [h3] at hbase <;> exact absurd hbase (by decide)
  rw [if_neg h3]
  by_cases h4 : Collects header.baseType
  · rw [if_pos h4]
    simp only [bind_eq_ok, Except.ok.injEq, Prod.mk.injEq, Prod.exists, u32_iff hs]
    constructor
    · rintro ⟨members, _, hword, rfl, rfl⟩
      exact ⟨_, _, .members h4, hword⟩
    · rintro ⟨raw, cost, hbody, h⟩
      cases hbody with
      | point hbase => exact absurd hbase h1
      | line hbase => exact absurd hbase h2
      | area hbase => exact absurd hbase h3
      | @members members => exact ⟨members, s', h, rfl, rfl⟩
  rw [if_neg h4]
  constructor
  · intro h
    split at h <;> cases h
  · rintro ⟨raw, cost, hbody, -⟩
    cases hbody with
    | point hbase => exact absurd hbase h1
    | line hbase => exact absurd hbase h2
    | area hbase => exact absurd hbase h3
    | members hbase => exact absurd hbase h4

/-! ## One geometry -/

/-- What a scanner notes down beside its place and its budget. -/
structure Notes where
  observedDepth : Nat
  hasAnyZ : Bool
  hasAnyM : Bool
  hasAnyEmbeddedSrid : Bool
  embeddedSridCount : Nat
  typePatches : List TypePatch

def notes (s : Scanner) : Notes where
  observedDepth := s.observedDepth
  hasAnyZ := s.hasAnyZ
  hasAnyM := s.hasAnyM
  hasAnyEmbeddedSrid := s.hasAnyEmbeddedSrid
  embeddedSridCount := s.embeddedSridCount
  typePatches := s.typePatches

/-- The scanner with these notes instead of its own. -/
def noted (s : Scanner) (n : Notes) : Scanner :=
  { s with
    observedDepth := n.observedDepth
    hasAnyZ := n.hasAnyZ
    hasAnyM := n.hasAnyM
    hasAnyEmbeddedSrid := n.hasAnyEmbeddedSrid
    embeddedSridCount := n.embeddedSridCount
    typePatches := n.typePatches }

@[simp] theorem noted_noted (s : Scanner) (m n : Notes) : noted (noted s m) n = noted s n := rfl

@[simp] theorem notes_noted (s : Scanner) (n : Notes) : notes (noted s n) = n := rfl

theorem sound_noted {s : Scanner} {n : Notes} (hs : Sound s) : Sound (noted s n) :=
  ⟨hs.within, hs.short, hs.paid, hs.counted⟩

/-- Reading neither looks at the notes nor changes them. -/
theorem passes_noted {s s' : Scanner} {raw : List UInt8} {cost : Nat} {n : Notes} :
    Passes (noted s n) s' raw cost ↔ ∃ t, Passes s t raw cost ∧ s' = noted t n := by
  constructor
  · intro h
    have hsound := h.sound
    rw [h.pass] at hsound
    refine ⟨pass s raw.length cost, ⟨?_, rfl, ?_⟩, h.pass⟩
    · have hrest := h.rest
      rw [h.pass] at hrest
      exact hrest
    · exact ⟨hsound.within, hsound.short, hsound.paid, hsound.counted⟩
  · rintro ⟨t, h, rfl⟩
    refine ⟨h.rest, ?_, sound_noted h.sound⟩
    rw [h.pass]
    rfl

theorem Passes.notes {s s' : Scanner} {raw : List UInt8} {cost : Nat} (h : Passes s s' raw cost) :
    EwkbSegments.notes s' = EwkbSegments.notes s := by
  rw [h.pass]
  rfl

/-- The bytes of the header of a segment. -/
def Segment.head (seg : Segment) : List UInt8 :=
  seg.order ++ (wordBytes seg.littleEndian seg.word ++ seg.sridBytes)

theorem Segment.bytes_eq (seg : Segment) : seg.bytes = seg.head ++ seg.body := by
  unfold Segment.bytes Segment.head
  rw [List.append_assoc, List.append_assoc]

/-- A header, in the terms of its segment. -/
theorem header_eq (s : Scanner) : s.header = (do
    let (littleEndian, s₁) ← s.byteOrder
    let (word, s₂) ← s₁.u32 littleEndian
    failIf (word &&& 0x10000000 ≠ 0) (mappingError "bounding box EWKB embedded non supportato")
    let seg : Segment := { littleEndian, word, srid := none, body := [] }
    let s₃ := noted s₂ { notes s₂ with
      typePatches := s₂.typePatches ++ seg.patches s₂.dimensionMode s₁.offset }
    if carriesSrid word then do
      let (srid, s₄) ← s₃.u32 littleEndian
      .ok ({ seg with srid := some srid }.header s₂.dimensionMode, s₄)
    else .ok (seg.header s₂.dimensionMode, s₃)) := by
  unfold Segment.patches
  simp only [← List.append_assoc]
  rfl

theorem header_iff {s s' : Scanner} {header : Header} (hs : Sound s) :
    s.header = .ok (header, s') ↔ ∃ (seg : Segment) (t : Scanner), seg.body = [] ∧
      seg.word &&& 0x10000000 = 0 ∧ seg.srid.isSome = carriesSrid seg.word ∧
      header = seg.header s.dimensionMode ∧ Passes s t seg.head 0 ∧
      s' = noted t { notes s with
        typePatches := s.typePatches ++ seg.patches s.dimensionMode (s.offset + 1) } := by
  rw [header_eq]
  simp only [bind_eq_ok, failIf_eq_ok, exists_const, Prod.exists, byteOrder_iff hs]
  constructor
  · rintro ⟨littleEndian, s₁, horder, word, s₂, hword, hbox, h⟩
    have hword := (u32_iff horder.sound).1 hword
    have hoffset : s₁.offset = s.offset + 1 := by
      rw [horder.pass]
      cases littleEndian <;> rfl
    have hmode : s₂.dimensionMode = s.dimensionMode := hword.mode.trans horder.mode
    have hnotes : notes s₂ = notes s := hword.notes.trans horder.notes
    have hpatches : s₂.typePatches = s.typePatches := congrArg Notes.typePatches hnotes
    have hboth := passes_append.2 ⟨s₁, horder, hword⟩
    rw [hoffset, hmode, hpatches, hnotes] at h
    split at h
    next hsrid =>
      simp only [bind_eq_ok, Except.ok.injEq, Prod.mk.injEq, Prod.exists] at h
      obtain ⟨srid, s₃, hu32, rfl, rfl⟩ := h
      obtain ⟨t, ht, rfl⟩ := passes_noted.1 ((u32_iff (sound_noted hboth.sound)).1 hu32)
      refine ⟨⟨littleEndian, word, some srid, []⟩, t, rfl, not_not.1 hbox, hsrid.symm, rfl, ?_, rfl⟩
      have hall := passes_append.2 ⟨s₂, hboth, ht⟩
      rwa [List.append_assoc] at hall
    next hsrid =>
      simp only [Except.ok.injEq, Prod.mk.injEq] at h
      obtain ⟨rfl, rfl⟩ := h
      refine ⟨⟨littleEndian, word, none, []⟩, s₂, rfl, not_not.1 hbox,
        (Bool.eq_false_iff.2 hsrid).symm, rfl, ?_, rfl⟩
      show Passes s s₂ (_ ++ (_ ++ [])) 0
      rwa [List.append_nil]
  · rintro ⟨⟨littleEndian, word, srid, body⟩, t, rfl, hbox, hsrid, rfl, hpasses, rfl⟩
    obtain ⟨s₁, horder, hpasses⟩ := (passes_append (a := 0) (b := 0)).1 hpasses
    obtain ⟨s₂, hword, hsridBytes⟩ := (passes_append (a := 0) (b := 0)).1 hpasses
    have hoffset : s₁.offset = s.offset + 1 := by
      rw [horder.pass]
      cases littleEndian <;> rfl
    have hmode : s₂.dimensionMode = s.dimensionMode := hword.mode.trans horder.mode
    have hnotes : notes s₂ = notes s := hword.notes.trans horder.notes
    have hpatches : s₂.typePatches = s.typePatches := congrArg Notes.typePatches hnotes
    refine ⟨littleEndian, s₁, horder, word, s₂, (u32_iff horder.sound).2 hword, not_not.2 hbox, ?_⟩
    rw [hoffset, hmode, hpatches, hnotes]
    cases srid with
    | some srid =>
      have hsome : carriesSrid word = true := hsrid.symm
      rw [if_pos hsome]
      simp only [bind_eq_ok, Except.ok.injEq, Prod.mk.injEq, Prod.exists]
      exact ⟨srid, _, (u32_iff (sound_noted hword.sound)).2
        (passes_noted.2 ⟨t, hsridBytes, rfl⟩), rfl, rfl⟩
    | none =>
      have hnone : carriesSrid word = false := hsrid.symm
      rw [hnone, (passes_nil hword.sound).1 hsridBytes]
      rfl

theorem header_noted {s s' : Scanner} {n : Notes} {header : Header} (hs : Sound s) :
    (noted s n).header = .ok (header, s') ↔ ∃ (seg : Segment) (t : Scanner), seg.body = [] ∧
      seg.word &&& 0x10000000 = 0 ∧ seg.srid.isSome = carriesSrid seg.word ∧
      header = seg.header s.dimensionMode ∧ Passes s t seg.head 0 ∧
      s' = noted t { n with
        typePatches := n.typePatches ++ seg.patches s.dimensionMode (s.offset + 1) } := by
  rw [header_iff (sound_noted hs)]
  constructor
  · rintro ⟨seg, t', hempty, hbox, hsrid, rfl, hnoted, rfl⟩
    obtain ⟨t, hpasses, rfl⟩ := passes_noted.1 hnoted
    exact ⟨seg, t, hempty, hbox, hsrid, rfl, hpasses, rfl⟩
  · rintro ⟨seg, t, hempty, hbox, hsrid, rfl, hpasses, rfl⟩
    exact ⟨seg, noted t n, hempty, hbox, hsrid, rfl, passes_noted.2 ⟨t, hpasses, rfl⟩, rfl⟩

/-- What a scanner notes down of a geometry. -/
def note (s : Scanner) (depth : Nat) (seg : Segment) : Notes where
  observedDepth := max s.observedDepth depth
  hasAnyZ := s.hasAnyZ || seg.hasZ s.dimensionMode
  hasAnyM := s.hasAnyM || seg.hasM
  hasAnyEmbeddedSrid := s.hasAnyEmbeddedSrid || seg.srid.isSome
  embeddedSridCount := s.embeddedSridCount + seg.srid.isSome.toNat
  typePatches := s.typePatches ++ seg.patches s.dimensionMode (s.offset + 1)

/-- The scanner behind a geometry. -/
def behind (s : Scanner) (depth cost : Nat) (seg : Segment) : Scanner :=
  noted (pass s seg.bytes.length (1 + cost)) (note s depth seg)

/-- A geometry, with the notes kept apart. -/
theorem geometry_eq (s : Scanner) (depth : Nat) : s.geometry depth = (do
    failIf (depth = 0 ∨ depth > s.maxDepth)
      (resourceError "geometria EWKB oltre il limite di profondità")
    let s₁ ← (noted s { notes s with observedDepth := max s.observedDepth depth }).addComponents 1
    let (header, s₂) ← s₁.header
    let count ← okOr
      (if header.srid.isSome then checkedAdd 64 (notes s₂).embeddedSridCount 1
        else some (notes s₂).embeddedSridCount)
      (resourceError "overflow SRID embedded EWKB")
    let (children, s₃) ← (noted s₂ { notes s₂ with
      hasAnyZ := (notes s₂).hasAnyZ || header.hasZ
      hasAnyM := (notes s₂).hasAnyM || header.hasM
      hasAnyEmbeddedSrid := (notes s₂).hasAnyEmbeddedSrid || header.srid.isSome
      embeddedSridCount := count }).body header
    .ok ((children, header), s₃)) := rfl

theorem srids_eq {count srids : Nat} {srid : Option UInt32} (h : srids + 1 < 2 ^ 64) :
    (if srid.isSome then checkedAdd 64 srids 1 else some srids) = some count ↔
      count = srids + srid.isSome.toNat := by
  cases srid with
  | none => simp [eq_comm]
  | some srid =>
    rw [Option.isSome_some, if_pos rfl, checkedAdd_eq_some]
    exact and_iff_right h

theorem five_le (seg : Segment) : 5 ≤ seg.head.length := by
  unfold Segment.head Segment.order
  cases seg.littleEndian <;> simp [wordBytes]

/-- **Reading one geometry is passing a segment.** -/
theorem geometry_iff {s s' : Scanner} {depth children : Nat} {header : Header} (hs : Sound s)
    (hsrids : s.embeddedSridCount ≤ s.offset) :
    s.geometry depth = .ok ((children, header), s') ↔
      depth ≠ 0 ∧ depth ≤ s.maxDepth ∧ ∃ (seg : Segment) (cost : Nat),
        seg.Holds s.dimensionMode children cost ∧ header = seg.header s.dimensionMode ∧
          rest s = seg.bytes ++ rest s' ∧ s' = behind s depth cost seg ∧ Sound s' := by
  rw [geometry_eq]
  simp only [bind_eq_ok, failIf_eq_ok, exists_const, okOr_eq_ok, Except.ok.injEq, Prod.mk.injEq,
    Prod.exists, addComponents_iff (sound_noted hs), passes_noted, not_or, not_lt, and_assoc]
  refine and_congr_right fun hzero => and_congr_right fun hmax => ?_
  constructor
  · rintro ⟨_, ⟨s₁, hparts, rfl⟩, header, s₂, hheader, count, hcount, children, s₃, hbody, rfl, rfl,
      rfl⟩
    obtain rfl := hparts.pass
    obtain ⟨seg, t, -, hbox, hsrid, rfl, hhead, rfl⟩ := (header_noted hparts.sound).1 hheader
    rw [noted_noted, body_iff (sound_noted hhead.sound)] at hbody
    obtain ⟨raw, cost, hraw, hnoted⟩ := hbody
    obtain ⟨t', hpasses, rfl⟩ := passes_noted.1 hnoted
    have hall := passes_append.2 ⟨_, hparts, passes_append.2 ⟨t, hhead, hpasses⟩⟩
    have hcount' := (srids_eq ?_).1 hcount
    refine ⟨{ seg with body := raw }, cost, ⟨hbox, hsrid, hraw⟩, rfl, ?_, ?_, sound_noted hall.sound⟩
    · rw [Segment.bytes_eq]
      exact hall.rest
    · rw [hall.pass, hcount', Nat.zero_add, List.nil_append]
      show _ = noted (pass s (Segment.bytes _).length _) _
      rw [Segment.bytes_eq]
      rfl
    · have hshort := hhead.sound.short
      have hlong := five_le seg
      rw [hhead.pass] at hshort
      dsimp only [pass, notes_noted, notes] at hshort ⊢
      omega
  · rintro ⟨seg, cost, hholds, rfl, hrest, rfl, hsound⟩
    have hall : Passes s (pass s seg.bytes.length (1 + cost)) ([] ++ (seg.head ++ seg.body))
        (1 + (0 + cost)) := by
      rw [List.nil_append, Nat.zero_add, ← Segment.bytes_eq]
      exact ⟨hrest, rfl, hsound.within, hsound.short, hsound.paid, hsound.counted⟩
    obtain ⟨s₁, hparts, hmore⟩ := passes_append.1 hall
    obtain ⟨t, hhead, hbody⟩ := passes_append.1 hmore
    obtain rfl := hparts.pass
    have hheader := (header_noted (n := { notes s with observedDepth := max s.observedDepth depth })
      hparts.sound).2 ⟨{ seg with body := [] }, t, rfl, hholds.unboxed, hholds.srid, rfl, hhead, rfl⟩
    refine ⟨_, ⟨_, hparts, rfl⟩, _, _, hheader, s.embeddedSridCount + seg.srid.isSome.toNat, ?_,
      children, _, ?_, rfl, rfl, rfl⟩
    · refine (srids_eq ?_).2 rfl
      have hshort := hhead.sound.short
      have hlong := five_le seg
      rw [hhead.pass] at hshort
      dsimp only [pass, notes_noted, notes] at hshort ⊢
      omega
    · rw [notes_noted, noted_noted, body_iff (sound_noted hhead.sound)]
      exact ⟨seg.body, cost, hholds.body, passes_noted.2 ⟨_, hbody, rfl⟩⟩

/-! ## The walk -/

def bytesOf (segs : List Segment) : List UInt8 := segs.flatMap Segment.bytes

/-- The patches of geometries one after the other, from `offset` on. -/
def patchesOf (mode : DimensionMode) : Nat → List Segment → List TypePatch
  | _, [] => []
  | offset, seg :: segs =>
    seg.patches mode (offset + 1) ++ patchesOf mode (offset + seg.bytes.length) segs

/-- The walk from these frames passes these geometries, the first at `depth`; with the deepest level
it reaches and the components they count for. -/
inductive Walk (mode : DimensionMode) (maxDepth : Nat) :
    List Frame → Nat → List Segment → Nat → Nat → Prop
  | last {frames frames' : List Frame} {depth children cost : Nat} {seg : Segment} :
    depth ≠ 0 → depth ≤ maxDepth → seg.Holds mode children cost →
    pushFrame children depth maxDepth frames = .ok frames' → nextMember frames' = none →
    Walk mode maxDepth frames depth [seg] depth (1 + cost)
  | more {frames frames' frames'' : List Frame} {depth children cost depth' deepest total : Nat}
      {seg : Segment} {segs : List Segment} :
    depth ≠ 0 → depth ≤ maxDepth → seg.Holds mode children cost →
    pushFrame children depth maxDepth frames = .ok frames' →
    nextMember frames' = some (depth', frames'') →
    Walk mode maxDepth frames'' depth' segs deepest total →
    Walk mode maxDepth frames depth (seg :: segs) (max depth deepest) (1 + cost + total)

/-- The scanner behind these geometries. -/
def through (s : Scanner) (segs : List Segment) (deepest total : Nat) : Scanner :=
  noted (pass s (bytesOf segs).length total)
    { observedDepth := max s.observedDepth deepest
      hasAnyZ := s.hasAnyZ || segs.any (·.hasZ s.dimensionMode)
      hasAnyM := s.hasAnyM || segs.any (·.hasM)
      hasAnyEmbeddedSrid := s.hasAnyEmbeddedSrid || segs.any (·.srid.isSome)
      embeddedSridCount := s.embeddedSridCount + segs.countP (·.srid.isSome)
      typePatches := s.typePatches ++ patchesOf s.dimensionMode s.offset segs }

theorem through_single (s : Scanner) (depth cost : Nat) (seg : Segment) :
    through s [seg] depth (1 + cost) = behind s depth cost seg := by
  have hcount : [seg].countP (·.srid.isSome) = seg.srid.isSome.toNat := by
    cases h : seg.srid.isSome <;> simp [h]
  unfold through behind note
  simp only [bytesOf, List.flatMap_cons, List.flatMap_nil, List.append_nil, patchesOf, List.any_cons,
    List.any_nil, Bool.or_false, hcount]

theorem through_cons (s : Scanner) (depth cost deepest total : Nat) (seg : Segment)
    (segs : List Segment) :
    through s (seg :: segs) (max depth deepest) (1 + cost + total) =
      through (behind s depth cost seg) segs deepest total := by
  have hcount : (seg :: segs).countP (·.srid.isSome) =
      seg.srid.isSome.toNat + segs.countP (·.srid.isSome) := by
    cases h : seg.srid.isSome <;> simp [h, Nat.add_comm]
  unfold through behind note noted pass
  simp only [bytesOf, List.flatMap_cons, List.length_append, patchesOf, List.any_cons, hcount,
    Nat.add_assoc, Nat.max_assoc, Bool.or_assoc, List.append_assoc]

/-- What the metadata of the first of these geometries are. -/
def rootOf (mode : DimensionMode) (segs : List Segment) : Option EwkbGeometryMetadata :=
  segs.head?.map fun seg => (seg.header mode).metadata

theorem behind_srids {s : Scanner} {depth cost : Nat} {seg : Segment}
    (hsrids : s.embeddedSridCount ≤ s.offset) :
    (behind s depth cost seg).embeddedSridCount ≤ (behind s depth cost seg).offset := by
  have hlong := five_le seg
  have hlength := congrArg List.length seg.bytes_eq
  have hone := seg.srid.isSome.toNat_le
  rw [List.length_append] at hlength
  show s.embeddedSridCount + seg.srid.isSome.toNat ≤ s.offset + seg.bytes.length
  omega

theorem rest_behind {s : Scanner} {depth cost : Nat} {seg : Segment} {more : List UInt8}
    (h : rest s = seg.bytes ++ more) : rest (behind s depth cost seg) = more :=
  rest_pass (1 + cost) h

theorem sound_of_through {s : Scanner} {segs : List Segment} {deepest total : Nat}
    (h : Sound (through s segs deepest total)) : Sound s := by
  obtain ⟨hwithin, hshort, hpaid, hcounted⟩ := h
  dsimp only [through, noted, pass] at hwithin hshort hpaid hcounted
  exact ⟨by omega, by omega, by omega, by omega⟩

/-- One turn of the walk. -/
theorem scanLoop_turn {s : Scanner} {frames frames' : List Frame} {depth children cost : Nat}
    {seg : Segment} {more : List UInt8} {root : Option EwkbGeometryMetadata} (hs : Sound s)
    (hsrids : s.embeddedSridCount ≤ s.offset) (hzero : depth ≠ 0) (hmax : depth ≤ s.maxDepth)
    (hholds : seg.Holds s.dimensionMode children cost)
    (hpush : pushFrame children depth s.maxDepth frames = .ok frames')
    (hrest : rest s = seg.bytes ++ more) (hsound : Sound (behind s depth cost seg)) :
    scanLoop s frames depth root = resume (behind s depth cost seg) frames'
      (root.or (some (seg.header s.dimensionMode).metadata)) := by
  have hgeometry := (geometry_iff hs hsrids).2 ⟨hzero, hmax, seg, cost, hholds, rfl,
    by rw [rest_behind hrest, hrest], rfl, hsound⟩
  rw [scanLoop_eq, hgeometry, ok_bind]
  show (pushFrame children depth s.maxDepth frames >>= _) = _
  rw [hpush, ok_bind]

theorem scanLoop_iff {s : Scanner} {frames : List Frame} {depth : Nat}
    {root : Option EwkbGeometryMetadata} {r : EwkbInspection × List TypePatch} (hs : Sound s)
    (hsrids : s.embeddedSridCount ≤ s.offset) :
    scanLoop s frames depth root = .ok r ↔ ∃ segs deepest total,
      Walk s.dimensionMode s.maxDepth frames depth segs deepest total ∧ rest s = bytesOf segs ∧
        Sound (through s segs deepest total) ∧
        finish (through s segs deepest total) (root.or (rootOf s.dimensionMode segs)) = .ok r := by
  constructor
  · intro h
    induction hn : s.bytes.length - s.offset using Nat.strong_induction_on
      generalizing s frames depth root with
    | h n ih =>
      rw [scanLoop_eq] at h
      simp only [bind_eq_ok, Prod.exists] at h
      obtain ⟨children, header, s', hgeometry, frames', hpush, hresume⟩ := h
      obtain ⟨hlt, hle, hbytes⟩ := Scanner.geometry_advances hgeometry
      obtain ⟨hzero, hmax, seg, cost, hholds, rfl, hrest, rfl, hsound⟩ :=
        (geometry_iff hs hsrids).1 hgeometry
      unfold resume at hresume
      split at hresume
      next hnone =>
        have hend : rest (behind s depth cost seg) = [] := by
          unfold finish at hresume
          simp only [bind_eq_ok, failIf_eq_ok, exists_const, not_not] at hresume
          unfold rest
          rw [hresume.1, List.drop_length]
        refine ⟨[seg], depth, 1 + cost, .last hzero hmax hholds hpush hnone, ?_, ?_, ?_⟩
        · rw [hrest, hend]
          simp [bytesOf]
        · rw [through_single]
          exact hsound
        · rw [through_single]
          exact hresume
      next depth' frames'' hsome =>
        obtain ⟨segs, deepest, total, hwalk, hmore, hthrough, hfinish⟩ :=
          ih _ (by rw [hbytes] at hle ⊢; omega) hsound (behind_srids hsrids) hresume rfl
        refine ⟨seg :: segs, max depth deepest, 1 + cost + total,
          .more hzero hmax hholds hpush hsome hwalk, ?_, ?_, ?_⟩
        · rw [hrest, hmore]
          rfl
        · rw [through_cons]
          exact hthrough
        · rw [through_cons, ← hfinish, Option.or_assoc]
          rfl
  · rintro ⟨segs, deepest, total, hwalk, hrest, hthrough, hfinish⟩
    generalize hmode : s.dimensionMode = mode at hwalk hfinish
    generalize hlimit : s.maxDepth = maxDepth at hwalk
    induction hwalk generalizing s root with
    | last hzero hmax hholds hpush hnone =>
      subst hmode hlimit
      rw [through_single] at hthrough hfinish
      rw [scanLoop_turn hs hsrids hzero hmax hholds hpush hrest hthrough, resume, hnone]
      exact hfinish
    | more hzero hmax hholds hpush hsome hwalk ih =>
      subst hmode hlimit
      rw [through_cons] at hthrough hfinish
      have hsound := sound_of_through hthrough
      rw [scanLoop_turn hs hsrids hzero hmax hholds hpush hrest hsound, resume, hsome]
      refine ih hsound (behind_srids hsrids) (rest_behind hrest) hthrough rfl ?_ rfl
      rw [← hfinish, Option.or_assoc]
      rfl

/-- What an inspection tells of these geometries. -/
structure Tells (mode : DimensionMode) (segs : List Segment) (deepest total : Nat)
    (i : EwkbInspection) : Prop where
  components : i.stats.components = total
  maxDepth : i.stats.maxDepth = deepest
  root : rootOf mode segs = some i.root
  hasAnyZ : i.hasAnyZ = segs.any (·.hasZ mode)
  hasAnyM : i.hasAnyM = segs.any (·.hasM)
  hasAnyEmbeddedSrid : i.hasAnyEmbeddedSrid = segs.any (·.srid.isSome)
  embeddedSridCount : i.embeddedSridCount = segs.countP (·.srid.isSome)

/-- **The scanner accepts the sequences of geometries that the counts close.** -/
theorem scanEwkb_iff {bytes : List UInt8} {maxComponents maxDepth : Nat} {mode : DimensionMode}
    {i : EwkbInspection} {patches : List TypePatch} :
    scanEwkb bytes maxComponents maxDepth mode = .ok (i, patches) ↔
      maxComponents ≠ 0 ∧ maxDepth ≠ 0 ∧ ∃ segs deepest total,
        Walk mode maxDepth [] 1 segs deepest total ∧ bytes = bytesOf segs ∧
          bytes.length < 2 ^ 64 ∧ total ≤ maxComponents ∧ total < 2 ^ 64 ∧
          Tells mode segs deepest total i ∧ patches = patchesOf mode 0 segs := by
  have hstart : Sound (.start bytes maxComponents maxDepth mode) :=
    ⟨Nat.zero_le _, Nat.two_pow_pos 64, Nat.zero_le _, Nat.two_pow_pos 64⟩
  unfold scanEwkb
  simp only [bind_eq_ok, failIf_eq_ok, exists_const, not_or, and_assoc,
    scanLoop_iff hstart (Nat.le_refl 0)]
  refine and_congr_right fun _ => and_congr_right fun _ => ?_
  refine exists_congr fun segs => exists_congr fun deepest => exists_congr fun total => ?_
  refine and_congr_right fun hwalk => and_congr_right fun hbytes => ?_
  have hlength : bytes.length = (bytesOf segs).length := congrArg List.length hbytes
  unfold finish
  simp only [bind_eq_ok, failIf_eq_ok, exists_const, okOr_eq_ok, Except.ok.injEq, Prod.mk.injEq]
  constructor
  · rintro ⟨⟨hwithin, hshort, hpaid, hcounted⟩, -, root, hroot, rfl, rfl⟩
    dsimp only [through, noted, pass, Scanner.start] at hwithin hshort hpaid hcounted
    refine ⟨by omega, by omega, by omega, ⟨?_, ?_, ?_, ?_, ?_, ?_, ?_⟩, rfl⟩
    · exact Nat.zero_add total
    · exact Nat.zero_max deepest
    · exact hroot
    · exact Bool.false_or _
    · exact Bool.false_or _
    · exact Bool.false_or _
    · exact Nat.zero_add _
  · rintro ⟨hshort, hpaid, hcounted, htells, rfl⟩
    refine ⟨⟨?_, ?_, ?_, ?_⟩, ?_, i.root, htells.root, ?_, rfl⟩
    · show 0 + (bytesOf segs).length ≤ bytes.length
      omega
    · show 0 + (bytesOf segs).length < 2 ^ 64
      omega
    · show 0 + total ≤ maxComponents
      omega
    · show 0 + total < 2 ^ 64
      omega
    · show ¬ 0 + (bytesOf segs).length ≠ bytes.length
      omega
    · obtain ⟨⟨components, depth⟩, root, hasAnyZ, hasAnyM, embedded, count⟩ := i
      obtain ⟨rfl, rfl, -, rfl, rfl, rfl, rfl⟩ := htells
      simp only [through, noted, pass, Scanner.start, Nat.zero_add, Nat.zero_max, Bool.false_or]

end Plenora.Core.EwkbSegments
