import Plenora.Lib.Outcome
import Plenora.Lib.Machine
import Plenora.Core.Error

/-!
# The bounded EWKB scanner

`scanEwkb` walks a geometry without recursion: one `Frame` per open container
holds how many members are still to come and their depth.  Every geometry costs
at least the five bytes of its header, so the walk ends.

    s.geometry d = .ok (r, s') → s.offset < s'.offset ∧ s'.offset ≤ s'.bytes.length
                                                              (Scanner.geometry_advances)
-/

namespace Plenora.Core.Ewkb

open Plenora.Lib

/-! ## Data model -/

structure EwkbStats where
  components : Nat
  maxDepth : Nat
  deriving DecidableEq, Repr

structure EwkbGeometryMetadata where
  baseType : UInt32
  hasZ : Bool
  hasM : Bool
  srid : Option UInt32
  deriving DecidableEq, Repr

structure EwkbInspection where
  stats : EwkbStats
  root : EwkbGeometryMetadata
  hasAnyZ : Bool
  hasAnyM : Bool
  hasAnyEmbeddedSrid : Bool
  embeddedSridCount : Nat
  deriving DecidableEq, Repr

structure Header where
  baseType : UInt32
  dimensions : Nat
  littleEndian : Bool
  hasZ : Bool
  hasM : Bool
  srid : Option UInt32
  deriving DecidableEq, Repr

/-- An open container: the members still to read and the depth they stand at. -/
structure Frame where
  remaining : Nat
  childDepth : Nat
  deriving DecidableEq, Repr

structure TypePatch where
  offset : Nat
  littleEndian : Bool
  typeWord : UInt32
  deriving DecidableEq, Repr

inductive DimensionMode where
  | strict | forceUnmarkedZ | extendedForm
  deriving DecidableEq, Repr

structure Scanner where
  bytes : List UInt8
  offset : Nat
  components : Nat
  maxComponents : Nat
  maxDepth : Nat
  observedDepth : Nat
  hasAnyZ : Bool
  hasAnyM : Bool
  hasAnyEmbeddedSrid : Bool
  embeddedSridCount : Nat
  dimensionMode : DimensionMode
  typePatches : List TypePatch
  deriving DecidableEq, Repr

def mappingError (message : String) : DatabaseError := .new .dataMapping .validate none message

def resourceError (message : String) : DatabaseError := .resourceLimit message

/-! ## Algorithm -/

namespace Scanner

def addComponents (s : Scanner) (amount : Nat) : Result Scanner := do
  let components ← okOr (checkedAdd 64 s.components amount)
    (resourceError "overflow nel conteggio componenti EWKB")
  failIf (components > s.maxComponents)
    (resourceError "geometria EWKB oltre il limite di componenti")
  .ok { s with components }

/-- The next `amount` bytes. -/
def take (s : Scanner) (amount : Nat) : Result (List UInt8 × Scanner) := do
  let stop ← okOr (checkedAdd 64 s.offset amount) (mappingError "offset EWKB oltre usize")
  failIf (stop > s.bytes.length) (mappingError "payload EWKB troncato")
  .ok ((s.bytes.drop s.offset).take amount, { s with offset := stop })

def u32 (s : Scanner) (littleEndian : Bool) : Result (UInt32 × Scanner) := do
  let (raw, s) ← s.take 4
  .ok (wordOfBytes littleEndian raw, s)

/-- The byte order mark: 0 for big endian, 1 for little endian. -/
def byteOrder (s : Scanner) : Result (Bool × Scanner) := do
  let (order, s) ← s.take 1
  match order with
  | [0] => .ok (false, s)
  | [1] => .ok (true, s)
  | _ => .error (mappingError "byte order EWKB non valido")

/-- The ISO thousands of a type code: the remaining code, and whether it marks Z and M. -/
def isoDimensions (baseType : UInt32) : UInt32 × Bool × Bool :=
  if baseType ≥ 3000 then (baseType - 3000, true, true)
  else if baseType ≥ 2000 then (baseType - 2000, false, true)
  else if baseType ≥ 1000 then (baseType - 1000, true, false)
  else (baseType, false, false)

/-- The patches a header adds to those already collected, by dimension mode. -/
def headerPatches (s : Scanner) (typeOffset : Nat) (littleEndian : Bool)
    (typeWord baseType : UInt32) (marked isoZ isoM hasZ hasM : Bool) : List TypePatch :=
  let forced :=
    if s.dimensionMode = .forceUnmarkedZ ∧ ¬ marked then
      [{ offset := typeOffset, littleEndian, typeWord := typeWord ||| 0x80000000 }]
    else []
  let extended :=
    if s.dimensionMode = .extendedForm ∧ (isoZ ∨ isoM) then
      [{ offset := typeOffset, littleEndian
         typeWord := (typeWord &&& 0xf0000000) ||| baseType
           ||| (if hasZ then 0x80000000 else 0) ||| (if hasM then 0x40000000 else 0) }]
    else []
  s.typePatches ++ forced ++ extended

def header (s : Scanner) : Result (Header × Scanner) := do
  let (littleEndian, s) ← s.byteOrder
  let typeOffset := s.offset
  let (typeWord, s) ← s.u32 littleEndian
  failIf (typeWord &&& 0x10000000 ≠ 0)
    (mappingError "bounding box EWKB embedded non supportato")
  let ewkbZ := typeWord &&& 0x80000000 != 0
  let ewkbM := typeWord &&& 0x40000000 != 0
  let hasSrid := typeWord &&& 0x20000000 != 0
  let (baseType, isoZ, isoM) := isoDimensions (typeWord &&& 0x0fffffff)
  let marked := ewkbZ || isoZ
  let hasM := ewkbM || isoM
  let hasZ := marked || s.dimensionMode = .forceUnmarkedZ
  let s := { s with
    typePatches :=
      s.headerPatches typeOffset littleEndian typeWord baseType marked isoZ isoM hasZ hasM }
  let dimensions := 2 + hasZ.toNat + hasM.toNat
  if hasSrid then do
    let (srid, s) ← s.u32 littleEndian
    .ok ({ baseType, dimensions, littleEndian, hasZ, hasM, srid := some srid }, s)
  else
    .ok ({ baseType, dimensions, littleEndian, hasZ, hasM, srid := none }, s)

def coordinates (s : Scanner) (points dimensions : Nat) : Result Scanner := do
  let s ← s.addComponents points
  let bytes ← okOr ((checkedMul 64 points dimensions).bind (checkedMul 64 · 8))
    (resourceError "overflow nella dimensione coordinate EWKB")
  let (_, s) ← s.take bytes
  .ok s

/-- The rings of a polygon: a point count and the points of each. -/
def rings (littleEndian : Bool) (dimensions : Nat) : Nat → Scanner → Result Scanner
  | 0, s => .ok s
  | n + 1, s => do
    let (points, s) ← s.u32 littleEndian
    let s ← s.coordinates points.toNat dimensions
    rings littleEndian dimensions n s

/-- The body after a header: how many members follow, 0 for a geometry without members. -/
def body (s : Scanner) (header : Header) : Result (Nat × Scanner) :=
  let base := header.baseType
  if base = 1 then do
    let s ← s.coordinates 1 header.dimensions
    .ok (0, s)
  else if base = 2 ∨ base = 8 then do
    let (points, s) ← s.u32 header.littleEndian
    let s ← s.coordinates points.toNat header.dimensions
    .ok (0, s)
  else if base = 3 ∨ base = 17 then do
    let (count, s) ← s.u32 header.littleEndian
    let s ← s.addComponents count.toNat
    let s ← rings header.littleEndian header.dimensions count.toNat s
    .ok (0, s)
  else if (4 ≤ base ∧ base ≤ 7) ∨ (9 ≤ base ∧ base ≤ 12) ∨ base = 15 ∨ base = 16 then do
    let (members, s) ← s.u32 header.littleEndian
    .ok (members.toNat, s)
  else if base = 13 ∨ base = 14 then
    .error (mappingError "tipo EWKB astratto non serializzabile")
  else
    .error (mappingError "tipo geometry EWKB non supportato")

/-- One geometry at `depth` (the root stands at 1), without its members. -/
def geometry (s : Scanner) (depth : Nat) : Result ((Nat × Header) × Scanner) := do
  failIf (depth = 0 ∨ depth > s.maxDepth)
    (resourceError "geometria EWKB oltre il limite di profondità")
  let s := { s with observedDepth := max s.observedDepth depth }
  let s ← s.addComponents 1
  let (header, s) ← s.header
  let s := { s with
    hasAnyZ := s.hasAnyZ || header.hasZ
    hasAnyM := s.hasAnyM || header.hasM
    hasAnyEmbeddedSrid := s.hasAnyEmbeddedSrid || header.srid.isSome }
  let count ← okOr
    (if header.srid.isSome then checkedAdd 64 s.embeddedSridCount 1
      else some s.embeddedSridCount)
    (resourceError "overflow SRID embedded EWKB")
  let s := { s with embeddedSridCount := count }
  let (children, s) ← s.body header
  .ok ((children, header), s)

end Scanner

/-! ### The scan advances -/

namespace Scanner

/-- What reading `n` bytes or more leaves of the scanner: the input and the limits, and an
offset that grew by at least `n` without leaving the input. -/
def Reads (s s' : Scanner) (n : Nat) : Prop :=
  s'.bytes = s.bytes ∧ s'.maxDepth = s.maxDepth ∧ s.offset + n ≤ s'.offset ∧
    s'.offset ≤ max s.offset s.bytes.length

theorem Reads.refl (s : Scanner) : s.Reads s 0 := ⟨rfl, rfl, Nat.le_refl _, Nat.le_max_left _ _⟩

theorem Reads.trans {s s₁ s₂ : Scanner} {m n : Nat} (h₁ : s.Reads s₁ m) (h₂ : s₁.Reads s₂ n) :
    s.Reads s₂ (m + n) := by
  obtain ⟨hb, hd, ho, hl⟩ := h₁
  obtain ⟨hb', hd', ho', hl'⟩ := h₂
  rw [hb] at hl'
  exact ⟨hb'.trans hb, hd'.trans hd, by omega, by omega⟩

theorem Reads.weaken {s s' : Scanner} {m n : Nat} (h : s.Reads s' n) (hm : m ≤ n) :
    s.Reads s' m := by
  obtain ⟨hb, hd, ho, hl⟩ := h
  exact ⟨hb, hd, by omega, hl⟩

theorem take_spec {s s' : Scanner} {n : Nat} {raw : List UInt8} (h : s.take n = .ok (raw, s')) :
    raw = (s.bytes.drop s.offset).take n ∧ s' = { s with offset := s.offset + n } ∧
      s.offset + n < 2 ^ 64 ∧ s.offset + n ≤ s.bytes.length := by
  unfold take at h
  simp only [bind_eq_ok, okOr_eq_ok, checkedAdd_eq_some, failIf_eq_ok, exists_const,
    Except.ok.injEq, Prod.mk.injEq] at h
  obtain ⟨stop, ⟨hlt, rfl⟩, hle, rfl, rfl⟩ := h
  exact ⟨rfl, rfl, hlt, by omega⟩

theorem take_reads {s s' : Scanner} {n : Nat} {raw : List UInt8} (h : s.take n = .ok (raw, s')) :
    s.Reads s' n := by
  obtain ⟨-, rfl, -, hle⟩ := take_spec h
  exact ⟨rfl, rfl, Nat.le_refl _, Nat.le_trans hle (Nat.le_max_right _ _)⟩

theorem addComponents_reads {s s' : Scanner} {n : Nat} (h : s.addComponents n = .ok s') :
    s.Reads s' 0 := by
  unfold addComponents at h
  simp only [bind_eq_ok, okOr_eq_ok, failIf_eq_ok, exists_const, Except.ok.injEq] at h
  obtain ⟨c, -, -, rfl⟩ := h
  exact ⟨rfl, rfl, Nat.le_refl _, Nat.le_max_left _ _⟩

theorem u32_reads {s s' : Scanner} {le : Bool} {v : UInt32} (h : s.u32 le = .ok (v, s')) :
    s.Reads s' 4 := by
  unfold u32 at h
  simp only [bind_eq_ok, Except.ok.injEq, Prod.mk.injEq] at h
  obtain ⟨⟨raw, s₁⟩, ht, -, rfl⟩ := h
  exact take_reads ht

theorem byteOrder_reads {s s' : Scanner} {le : Bool} (h : s.byteOrder = .ok (le, s')) :
    s.Reads s' 1 := by
  unfold byteOrder at h
  simp only [bind_eq_ok] at h
  obtain ⟨⟨raw, s₁⟩, ht, h⟩ := h
  have := take_reads ht
  dsimp only at h
  split at h <;> simp_all

theorem header_reads {s s' : Scanner} {hd : Header} (h : s.header = .ok (hd, s')) :
    s.Reads s' 5 := by
  unfold header at h
  simp only [bind_eq_ok, failIf_eq_ok, exists_const] at h
  obtain ⟨⟨le, s₁⟩, hbo, ⟨word, s₂⟩, hw, -, h⟩ := h
  have h₂ : s.Reads s₂ 5 := (byteOrder_reads hbo).trans (u32_reads hw)
  split at h
  next =>
    simp only [bind_eq_ok, Except.ok.injEq, Prod.mk.injEq] at h
    obtain ⟨⟨srid, s₃⟩, hs, -, rfl⟩ := h
    -- the patches are not part of what reading looks at
    have h₃ := u32_reads hs
    exact (h₂.trans (show s₂.Reads s₃ 4 from h₃)).weaken (by omega)
  next =>
    simp only [Except.ok.injEq, Prod.mk.injEq] at h
    obtain ⟨-, rfl⟩ := h
    exact h₂

theorem coordinates_reads {s s' : Scanner} {points dims : Nat}
    (h : s.coordinates points dims = .ok s') : s.Reads s' 0 := by
  unfold coordinates at h
  simp only [bind_eq_ok, okOr_eq_ok, Except.ok.injEq] at h
  obtain ⟨s₁, ha, bytes, -, ⟨raw, s₂⟩, ht, rfl⟩ := h
  exact ((addComponents_reads ha).trans (take_reads ht)).weaken (Nat.zero_le _)

theorem rings_reads {le : Bool} {dims n : Nat} {s s' : Scanner}
    (h : rings le dims n s = .ok s') : s.Reads s' 0 := by
  induction n generalizing s with
  | zero =>
    simp only [rings, Except.ok.injEq] at h
    subst h
    exact Reads.refl s
  | succ n ih =>
    simp only [rings, bind_eq_ok] at h
    obtain ⟨⟨points, s₁⟩, hu, s₂, hc, hr⟩ := h
    exact (((u32_reads hu).trans (coordinates_reads hc)).trans (ih hr)).weaken (Nat.zero_le _)

theorem body_reads {s s' : Scanner} {hd : Header} {children : Nat}
    (h : s.body hd = .ok (children, s')) : s.Reads s' 0 := by
  unfold body at h
  dsimp only at h
  split at h
  next =>
    simp only [bind_eq_ok, Except.ok.injEq, Prod.mk.injEq] at h
    obtain ⟨s₁, hc, -, rfl⟩ := h
    exact coordinates_reads hc
  next =>
  split at h
  next =>
    simp only [bind_eq_ok, Except.ok.injEq, Prod.mk.injEq] at h
    obtain ⟨⟨points, s₁⟩, hu, s₂, hc, -, rfl⟩ := h
    exact ((u32_reads hu).trans (coordinates_reads hc)).weaken (Nat.zero_le _)
  next =>
  split at h
  next =>
    simp only [bind_eq_ok, Except.ok.injEq, Prod.mk.injEq] at h
    obtain ⟨⟨count, s₁⟩, hu, s₂, ha, s₃, hr, -, rfl⟩ := h
    exact (((u32_reads hu).trans (addComponents_reads ha)).trans (rings_reads hr)).weaken
      (Nat.zero_le _)
  next =>
  split at h
  next =>
    simp only [bind_eq_ok, Except.ok.injEq, Prod.mk.injEq] at h
    obtain ⟨⟨members, s₁⟩, hu, -, rfl⟩ := h
    exact (u32_reads hu).weaken (Nat.zero_le _)
  next =>
    split at h <;> simp at h

/-- Every geometry takes at least its header from the input. -/
theorem geometry_advances {s s' : Scanner} {depth : Nat} {r : Nat × Header}
    (h : s.geometry depth = .ok (r, s')) :
    s.offset < s'.offset ∧ s'.offset ≤ s'.bytes.length ∧ s'.bytes = s.bytes := by
  unfold geometry at h
  simp only [bind_eq_ok, failIf_eq_ok, exists_const, okOr_eq_ok, Except.ok.injEq,
    Prod.mk.injEq] at h
  obtain ⟨-, s₁, ha, ⟨hd, s₂⟩, hh, count, -, ⟨children, s₃⟩, hb, -, rfl⟩ := h
  have h₁ := addComponents_reads ha
  have h₂ := header_reads hh
  have h₃ := body_reads hb
  obtain ⟨hby, -, ho, hl⟩ := (h₁.trans h₂).trans h₃
  dsimp only at hby ho hl ⊢
  exact ⟨by omega, by rw [hby]; omega, hby⟩

end Scanner

/-! ### The walk over the frames -/

/-- Open a container: its members stand one level deeper. -/
def pushFrame (children depth maxDepth : Nat) (frames : List Frame) : Result (List Frame) :=
  if children > 0 then do
    let childDepth ← okOr (checkedAdd 64 depth 1) (resourceError "overflow profondità EWKB")
    failIf (childDepth > maxDepth) (resourceError "geometria EWKB oltre il limite di profondità")
    .ok ({ remaining := children, childDepth } :: frames)
  else .ok frames

/-- The inner loop: exhausted frames are dropped, and the next member's depth is that of the
innermost frame with members left. -/
def nextMember : List Frame → Option (Nat × List Frame)
  | [] => none
  | frame :: frames =>
    if frame.remaining = 0 then nextMember frames
    else some (frame.childDepth, { frame with remaining := frame.remaining - 1 } :: frames)

/-- The end of the walk: nothing may follow the geometry. -/
def finish (s : Scanner) (root : Option EwkbGeometryMetadata) :
    Result (EwkbInspection × List TypePatch) := do
  failIf (s.offset ≠ s.bytes.length) (mappingError "byte residui dopo la geometria EWKB")
  let root ← okOr root (mappingError "geometria EWKB assente")
  .ok ({ stats := { components := s.components, maxDepth := s.observedDepth }
         root
         hasAnyZ := s.hasAnyZ
         hasAnyM := s.hasAnyM
         hasAnyEmbeddedSrid := s.hasAnyEmbeddedSrid
         embeddedSridCount := s.embeddedSridCount }, s.typePatches)

def Header.metadata (h : Header) : EwkbGeometryMetadata :=
  { baseType := h.baseType, hasZ := h.hasZ, hasM := h.hasM, srid := h.srid }

/-- The outer loop: read the geometry at `depth`, then go to the next member or end. -/
def scanLoop (s : Scanner) (frames : List Frame) (depth : Nat)
    (root : Option EwkbGeometryMetadata) : Result (EwkbInspection × List TypePatch) :=
  match _h : s.geometry depth with
  | .error e => .error e
  | .ok ((children, header), s') =>
    let root := root.or (some header.metadata)
    match pushFrame children depth s'.maxDepth frames with
    | .error e => .error e
    | .ok frames =>
      match nextMember frames with
      | none => finish s' root
      | some (depth, frames) => scanLoop s' frames depth root
termination_by s.bytes.length - s.offset
decreasing_by
  obtain ⟨hlt, hle, hb⟩ := Scanner.geometry_advances _h
  rw [hb] at hle ⊢
  omega

/-- The scan after a geometry has been read: the next member, or the end. -/
def resume (s : Scanner) (frames : List Frame) (root : Option EwkbGeometryMetadata) :
    Result (EwkbInspection × List TypePatch) :=
  match nextMember frames with
  | none => finish s root
  | some (depth, frames) => scanLoop s frames depth root

/-- One turn of the outer loop. -/
theorem scanLoop_eq (s : Scanner) (frames : List Frame) (depth : Nat)
    (root : Option EwkbGeometryMetadata) :
    scanLoop s frames depth root = (do
      let ((children, header), s') ← s.geometry depth
      let frames ← pushFrame children depth s'.maxDepth frames
      resume s' frames (root.or (some header.metadata))) := by
  rw [scanLoop.eq_def]
  split
  next e h => rw [h]; rfl
  next children header s' h =>
    rw [h, ok_bind]
    dsimp only
    cases pushFrame children depth s'.maxDepth frames with
    | error e => rfl
    | ok frames => rfl

def Scanner.start (bytes : List UInt8) (maxComponents maxDepth : Nat)
    (dimensionMode : DimensionMode) : Scanner :=
  { bytes, offset := 0, components := 0, maxComponents, maxDepth, observedDepth := 0
    hasAnyZ := false, hasAnyM := false, hasAnyEmbeddedSrid := false, embeddedSridCount := 0
    dimensionMode, typePatches := [] }

def scanEwkb (bytes : List UInt8) (maxComponents maxDepth : Nat)
    (dimensionMode : DimensionMode) : Result (EwkbInspection × List TypePatch) := do
  failIf (maxComponents = 0 ∨ maxDepth = 0)
    (resourceError "limiti EWKB devono essere maggiori di zero")
  scanLoop (.start bytes maxComponents maxDepth dimensionMode) [] 1 none

def inspectEwkbDetailed (bytes : List UInt8) (maxComponents maxDepth : Nat) :
    Result EwkbInspection := do
  let (inspection, _) ← scanEwkb bytes maxComponents maxDepth .strict
  .ok inspection

def inspectEwkb (bytes : List UInt8) (maxComponents maxDepth : Nat) : Result EwkbStats := do
  let inspection ← inspectEwkbDetailed bytes maxComponents maxDepth
  .ok inspection.stats

end Plenora.Core.Ewkb
