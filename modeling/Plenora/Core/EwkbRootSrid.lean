import Plenora.Core.EwkbNormal
import Plenora.Core.WkbLanguage

/-!
# Adding a root SRID

`withRootSrid` scans a WKB value, moves its ISO type words to the extended form and writes the SRID
behind the root's type word.  On a value that was verified as `wkb` the result is verified as
`ewkb` under that SRID, and is the same tree in the extended form.

    g.WellFormed outer → Walk mode d [] 1 (segments g) g.levels g.components     (walk_geometry)
    withRootSrid g.bytes srid d = some (.ok (stamped srid g).bytes)              (withRootSrid_value)
-/

namespace Plenora.Core.EwkbSegments

open Plenora.Lib Plenora.Lib.WkbGrammar Plenora.Core.Ewkb
open Plenora.Core.WkbLanguage (Value Agrees collectionBytes inspection verifyValue_iff)
open Plenora.Core.GeometryValue (ValueContract verifyValue maxNesting)

/-! ## The rewriting -/

/-- `with_root_srid`; `none` is a panic. -/
def withRootSrid (wkb : List UInt8) (srid : UInt32) (maxDepth : Nat) : Option (Result (List UInt8)) :=
  let embedded := mappingError "SRID incorporato in un valore dichiarato wkb"
  match scanEwkb wkb (2 ^ 64 - 1) maxDepth .extendedForm with
  | .error e => some (.error e)
  | .ok (i, patches) =>
    if i.hasAnyEmbeddedSrid then some (.error embedded)
    else if wkb.head? ≠ some 0 ∧ wkb.head? ≠ some 1 then
      some (.error (mappingError "byte order WKB non valido"))
    else if wkb.length < 5 then some (.error (mappingError "type word WKB troncato"))
    else
      let littleEndian := wkb.head? = some 1
      let word := wordOfBytes littleEndian ((wkb.drop 1).take 4)
      if word &&& 0x20000000 ≠ 0 then some (.error embedded)
      else (applyPatches wkb patches).bind fun extended =>
        let rootWord := wordOfBytes littleEndian ((extended.drop 1).take 4)
        -- the debug assertion
        if rootWord &&& 0x0fffffff ≠ (word &&& 0x0fffffff) % 1000 then none
        else some (.ok (wkb.take 1 ++ (wordBytes littleEndian (rootWord ||| 0x20000000) ++
          (wordBytes littleEndian srid ++ extended.drop 5))))

/-! ## A tree as its geometries in the order of the bytes -/

def segment (head : Head) (body : List UInt8) : Segment :=
  { littleEndian := head.littleEndian, word := head.word, srid := head.srid, body }

mutual

def segments : Geometry → List Segment
  | .point head position => [segment head position]
  | .line head positions => [segment head (head.positions positions)]
  | .area head rings =>
    [segment head (head.count rings.length ++ (rings.map head.positions).flatten)]
  | .collection head members => segment head (head.count members.length) :: segmentsAll members

def segmentsAll : List Geometry → List Segment
  | [] => []
  | g :: gs => segments g ++ segmentsAll gs

end

theorem bytes_segment (head : Head) (body : List UInt8) :
    (segment head body).bytes = head.bytes ++ body := by
  rw [Segment.bytes_eq]
  unfold Segment.head Head.bytes
  rw [← List.append_assoc]
  rfl

theorem bytesOf_append (xs ys : List Segment) : bytesOf (xs ++ ys) = bytesOf xs ++ bytesOf ys :=
  List.flatMap_append

theorem bytesOf_cons (seg : Segment) (segs : List Segment) :
    bytesOf (seg :: segs) = seg.bytes ++ bytesOf segs := List.flatMap_cons

mutual

theorem bytesOf_segments (g : Geometry) : bytesOf (segments g) = g.bytes := by
  cases g with
  | point head position =>
    rw [segments, bytesOf_cons, bytes_segment, Geometry.bytes]
    exact List.append_nil _
  | line head positions =>
    rw [segments, bytesOf_cons, bytes_segment, Geometry.bytes]
    exact List.append_nil _
  | area head rings =>
    rw [segments, bytesOf_cons, bytes_segment, Geometry.bytes]
    exact List.append_nil _
  | collection head members =>
    rw [segments, bytesOf_cons, bytes_segment, Geometry.bytes, bytesOf_segmentsAll, List.append_assoc]

theorem bytesOf_segmentsAll (gs : List Geometry) :
    bytesOf (segmentsAll gs) = Geometry.bytesAll gs := by
  cases gs with
  | nil =>
    rw [segmentsAll, Geometry.bytesAll]
    rfl
  | cons g gs =>
    rw [segmentsAll, Geometry.bytesAll, bytesOf_append, bytesOf_segments, bytesOf_segmentsAll]

end

/-! ## A well-formed tree is walked -/

/-- A type word of the grammar, as the scanner reads it. -/
structure Marks (word : UInt32) (head : Head) : Prop where
  unboxed : word &&& 0x10000000 = 0
  base : baseType word = head.kind.code
  hasZ : marksZ word = head.hasZ
  hasM : marksM word = head.hasM
  srid : carriesSrid word = head.srid.isSome

theorem typeWord_iso (kind : Kind) (hasZ hasM s : Bool) :
    let word := typeWord .iso kind hasZ hasM s
    word &&& 0x10000000 = 0 ∧ baseType word = kind.code ∧ marksZ word = hasZ ∧
      marksM word = hasM ∧ carriesSrid word = false := by
  cases kind <;> cases hasZ <;> cases hasM <;> decide +revert

theorem typeWord_extended (kind : Kind) (hasZ hasM s : Bool) :
    let word := typeWord .extended kind hasZ hasM s
    word &&& 0x10000000 = 0 ∧ baseType word = kind.code ∧ marksZ word = hasZ ∧
      marksM word = hasM ∧ carriesSrid word = s := by
  cases kind <;> cases hasZ <;> cases hasM <;> decide +revert

theorem marks_word {outer : Bool} {head : Head} (h : head.Admitted outer) : Marks head.word head := by
  have hextended := h.extended
  obtain ⟨littleEndian, form, kind, hasZ, hasM, srid⟩ := head
  cases form with
  | iso =>
    have hnone : srid.isSome = false := by
      cases hs : srid.isSome with
      | false => rfl
      | true => exact absurd (hextended hs) (by rintro ⟨⟩)
    obtain ⟨hbox, hbase, hz, hm, hsrid⟩ := typeWord_iso kind hasZ hasM srid.isSome
    exact ⟨hbox, hbase, hz, hm, hsrid.trans hnone.symm⟩
  | extended =>
    obtain ⟨hbox, hbase, hz, hm, hsrid⟩ := typeWord_extended kind hasZ hasM srid.isSome
    exact ⟨hbox, hbase, hz, hm, hsrid⟩

section Bodies

variable {head : Head}

theorem width_eq (head : Head) : head.width = (2 + head.hasZ.toNat + head.hasM.toNat) * 8 :=
  Nat.mul_comm _ _

theorem toNat_count {n : Nat} (h : n < 2 ^ 32) : (UInt32.ofNat n).toNat = n := by
  rw [UInt32.toNat_ofNat']
  exact Nat.mod_eq_of_lt h

/-- So many positions behind their number. -/
theorem length_positions {ps : List (List UInt8)} (h : Geometry.Positions head.width ps) :
    ps.flatten.length =
      (UInt32.ofNat ps.length).toNat * (2 + head.hasZ.toNat + head.hasM.toNat) * 8 := by
  rw [length_flatten_positions h.wide, toNat_count h.counted, width_eq, Nat.mul_assoc]

theorem isRings {rings : List (List (List UInt8))}
    (h : ∀ ring ∈ rings, Geometry.Ring head.width ring) :
    IsRings head.littleEndian (2 + head.hasZ.toNat + head.hasM.toNat) rings.length
      (rings.map head.positions).flatten (rings.map List.length).sum := by
  induction rings with
  | nil => exact .none
  | cons ring rings ih =>
    obtain ⟨hring, hrings⟩ := List.forall_mem_cons.1 h
    have hmore := IsRings.ring (length_positions hring.toPositions) (ih hrings)
    rw [toNat_count hring.counted] at hmore
    rw [List.map_cons, List.flatten_cons, List.map_cons, List.sum_cons, Head.positions,
      List.append_assoc]
    exact hmore

theorem holds_segment {outer : Bool} {body : List UInt8} {children cost : Nat}
    (hhead : head.Admitted outer) (hbody : IsBody head.littleEndian
      (2 + head.hasZ.toNat + head.hasM.toNat) head.kind.code body children cost) :
    (segment head body).Holds .strict children cost := by
  obtain ⟨hbox, hbase, hz, hm, hsrid⟩ := marks_word hhead
  refine ⟨hbox, hsrid.symm, ?_⟩
  show IsBody _ (2 + (marksZ head.word || false).toNat + (marksM head.word).toNat)
    (baseType head.word) _ _ _
  rw [hbase, hz, hm, Bool.or_false]
  exact hbody

theorem collects_code {kind : Kind} (h : kind.collects = true) : Collects kind.code := by
  cases kind with
  | point | lineString | circularString | polygon | triangle => cases h
  | _ => decide

end Bodies

/-- The walk after a geometry: at an end, or at the next member. -/
def Resumes (mode : DimensionMode) (maxDepth : Nat) (frames : List Frame) (segs : List Segment)
    (deepest total : Nat) : Prop :=
  nextMember frames = none ∧ segs = [] ∧ deepest = 0 ∧ total = 0 ∨
    ∃ depth frames', nextMember frames = some (depth, frames') ∧
      Walk mode maxDepth frames' depth segs deepest total

theorem walk_resumes {mode : DimensionMode} {maxDepth depth children cost deepest total : Nat}
    {frames frames' : List Frame} {seg : Segment} {segs : List Segment} (hzero : depth ≠ 0)
    (hmax : depth ≤ maxDepth) (hholds : seg.Holds mode children cost)
    (hpush : pushFrame children depth maxDepth frames = .ok frames')
    (hresumes : Resumes mode maxDepth frames' segs deepest total) :
    Walk mode maxDepth frames depth (seg :: segs) (max depth deepest) (1 + cost + total) := by
  rcases hresumes with ⟨hnone, rfl, rfl, rfl⟩ | ⟨depth', frames'', hsome, hwalk⟩
  · rw [Nat.max_zero]
    exact .last hzero hmax hholds hpush hnone
  · exact .more hzero hmax hholds hpush hsome hwalk

/-- A frame without members left is gone over. -/
theorem resumes_done {mode : DimensionMode} {maxDepth depth deepest total : Nat}
    {frames : List Frame} {segs : List Segment}
    (h : Resumes mode maxDepth frames segs deepest total) :
    Resumes mode maxDepth (⟨0, depth⟩ :: frames) segs deepest total := h

/-- The walk over one tree at `depth`, whatever comes after it. -/
def Walks (maxDepth depth : Nat) (g : Geometry) : Prop :=
  ∀ (frames : List Frame) (segs : List Segment) (deepest total : Nat),
    Resumes .strict maxDepth frames segs deepest total →
    Walk .strict maxDepth frames depth (segments g ++ segs) (max (depth + g.levels - 1) deepest)
      (g.components + total)

theorem walks_simple {maxDepth depth cost : Nat} {g : Geometry} {body : List UInt8}
    (hzero : depth ≠ 0) (hmax : depth ≤ maxDepth) (hsegments : segments g = [segment g.head body])
    (hlevels : g.levels = 1) (hcomponents : g.components = 1 + cost)
    (hholds : (segment g.head body).Holds .strict 0 cost) : Walks maxDepth depth g := by
  intro frames segs deepest total hresumes
  rw [hsegments, hlevels, hcomponents, Nat.add_sub_cancel]
  exact walk_resumes hzero hmax hholds rfl hresumes

theorem resumes_members {maxDepth depth deepest total : Nat} {frames : List Frame}
    {segs : List Segment} {members : List Geometry}
    (hmembers : ∀ g ∈ members, Walks maxDepth (depth + 1) g)
    (hresumes : Resumes .strict maxDepth frames segs deepest total) :
    ∃ deepest', Resumes .strict maxDepth (⟨members.length, depth + 1⟩ :: frames)
        (segmentsAll members ++ segs) deepest' (Geometry.componentsAll members + total) ∧
      max depth deepest' = max (depth + Geometry.levelsAll members) deepest := by
  induction members with
  | nil =>
    rw [segmentsAll, Geometry.componentsAll, Geometry.levelsAll, Nat.zero_add]
    exact ⟨deepest, resumes_done hresumes, rfl⟩
  | cons g gs ih =>
    obtain ⟨hg, hgs⟩ := List.forall_mem_cons.1 hmembers
    obtain ⟨deepest', hmore, hdeepest⟩ := ih hgs
    have hlevels := g.levels_pos
    have hwalk := hg _ _ _ _ hmore
    rw [← List.append_assoc, ← Nat.add_assoc] at hwalk
    refine ⟨max (depth + 1 + g.levels - 1) deepest',
      .inr ⟨depth + 1, ⟨gs.length, depth + 1⟩ :: frames, rfl, ?_⟩, ?_⟩
    · rw [segmentsAll, Geometry.componentsAll]
      exact hwalk
    · rw [Geometry.levelsAll]
      omega

/-- **A well-formed tree is walked by the scanner.** -/
theorem walk_geometry {outer : Bool} {g : Geometry} (hwell : g.WellFormed outer)
    {maxDepth depth : Nat} (hzero : depth ≠ 0) (hmax : depth + g.levels ≤ maxDepth + 1)
    (hword : depth + g.levels ≤ 2 ^ 64) : Walks maxDepth depth g := by
  have hlevels := g.levels_pos
  induction hwell generalizing depth with
  | @point _ head position hhead hkind hlength =>
    have hbody : IsBody head.littleEndian (2 + head.hasZ.toNat + head.hasM.toNat) head.kind.code
        position 0 1 := .point (by rw [hkind]; rfl) (by rw [hlength, width_eq])
    exact walks_simple hzero (by omega) (by rw [segments]; rfl) (by rw [Geometry.levels])
      (by rw [Geometry.components]) (holds_segment hhead hbody)
  | @lineString _ head positions hhead hkind hpositions _ =>
    have hbody : IsBody head.littleEndian (2 + head.hasZ.toNat + head.hasM.toNat) head.kind.code
        (head.positions positions) 0 (UInt32.ofNat positions.length).toNat :=
      .line (.inl (by rw [hkind]; rfl)) (length_positions hpositions)
    rw [toNat_count hpositions.counted] at hbody
    exact walks_simple hzero (by omega) (by rw [segments]; rfl) (by rw [Geometry.levels])
      (by rw [Geometry.components]) (holds_segment hhead hbody)
  | @circularString _ head positions hhead hkind hpositions _ =>
    have hbody : IsBody head.littleEndian (2 + head.hasZ.toNat + head.hasM.toNat) head.kind.code
        (head.positions positions) 0 (UInt32.ofNat positions.length).toNat :=
      .line (.inr (by rw [hkind]; rfl)) (length_positions hpositions)
    rw [toNat_count hpositions.counted] at hbody
    exact walks_simple hzero (by omega) (by rw [segments]; rfl) (by rw [Geometry.levels])
      (by rw [Geometry.components]) (holds_segment hhead hbody)
  | @area _ head rings hhead hkind hcount hrings =>
    have hbase : head.kind.code = 3 ∨ head.kind.code = 17 := by
      rcases hkind with hkind | ⟨hkind, -⟩
      · exact .inl (by rw [hkind]; rfl)
      · exact .inr (by rw [hkind]; rfl)
    have hraw := isRings hrings
    rw [← toNat_count hcount] at hraw
    have hbody : IsBody head.littleEndian (2 + head.hasZ.toNat + head.hasM.toNat) head.kind.code
        (head.count rings.length ++ (rings.map head.positions).flatten) 0
        ((UInt32.ofNat rings.length).toNat + (rings.map List.length).sum) := .area hbase hraw
    rw [toNat_count hcount] at hbody
    exact walks_simple hzero (by omega) (by rw [segments]; rfl) (by rw [Geometry.levels])
      (by rw [Geometry.components]) (holds_segment hhead hbody)
  | @collection _ head members hhead hcollects hcount _ _ ih =>
    intro frames segs deepest total hresumes
    rw [Geometry.levels] at hmax hword ⊢
    have hmembers : ∀ g ∈ members, Walks maxDepth (depth + 1) g := by
      intro g hg
      have hle := Geometry.levelsAll_le_iff.1 (Nat.le_refl _) g hg
      exact ih g hg (by omega) (by omega) (by omega) g.levels_pos
    have hbody : IsBody head.littleEndian (2 + head.hasZ.toNat + head.hasM.toNat) head.kind.code
        (head.count members.length) (UInt32.ofNat members.length).toNat 0 :=
      .members (collects_code hcollects)
    rw [toNat_count hcount] at hbody
    have hholds := holds_segment hhead hbody
    have hdeep : depth + (1 + Geometry.levelsAll members) - 1 =
        depth + Geometry.levelsAll members := by omega
    rw [segments, Geometry.components, Nat.add_assoc, hdeep]
    cases members with
    | nil =>
      rw [segmentsAll, Geometry.levelsAll, Geometry.componentsAll, Nat.zero_add, Nat.add_zero]
      exact walk_resumes hzero (by omega) hholds rfl hresumes
    | cons g gs =>
      have hg := g.levels_pos
      rw [Geometry.levelsAll] at hmax hword
      obtain ⟨deepest', hmore, hdeepest⟩ := resumes_members hmembers hresumes
      rw [← hdeepest]
      refine walk_resumes hzero (by omega) hholds ?_ hmore
      unfold pushFrame
      rw [if_pos (show (g :: gs).length > 0 from Nat.succ_pos _), (checkedAdd_eq_some (c := depth + 1)).2 ⟨by omega, rfl⟩,
        okOr_some, ok_bind, failIf_neg (by omega), ok_bind]

/-! ## The extended form -/

/-- A type word, in the extended form. -/
def extendedWord (word : UInt32) : UInt32 :=
  if (Scanner.isoDimensions (code word)).2.1 ∨ (Scanner.isoDimensions (code word)).2.2 then
    (word &&& 0xf0000000) ||| baseType word ||| (if marksZ word then 0x80000000 else 0)
      ||| (if marksM word then 0x40000000 else 0)
  else word

def Segment.extend (seg : Segment) : Segment := { seg with word := extendedWord seg.word }

theorem patches_extended (seg : Segment) (offset : Nat) :
    seg.patches .extendedForm offset = [⟨offset, seg.littleEndian, extendedWord seg.word⟩] ∨
      seg.patches .extendedForm offset = [] ∧ extendedWord seg.word = seg.word := by
  unfold Segment.patches extendedWord Segment.hasZ Segment.hasM
  by_cases hiso : (Scanner.isoDimensions (code seg.word)).2.1 = true ∨
    (Scanner.isoDimensions (code seg.word)).2.2 = true
  · exact .inl (by simp [hiso])
  · exact .inr ⟨by simp [hiso], if_neg hiso⟩

/-- A head in the extended form. -/
def extendedHead (head : Head) : Head := { head with form := .extended }

mutual

/-- A tree with every head in the extended form. -/
def extended : Geometry → Geometry
  | .point head position => .point (extendedHead head) position
  | .line head positions => .line (extendedHead head) positions
  | .area head rings => .area (extendedHead head) rings
  | .collection head members => .collection (extendedHead head) (extendedAll members)

def extendedAll : List Geometry → List Geometry
  | [] => []
  | g :: gs => extended g :: extendedAll gs

end

theorem extendedAll_eq (gs : List Geometry) : extendedAll gs = gs.map extended := by
  induction gs with
  | nil => rw [extendedAll]; rfl
  | cons g gs ih => rw [extendedAll, ih]; rfl

theorem head_extended (g : Geometry) : (extended g).head = extendedHead g.head := by
  cases g <;> rw [extended] <;> rfl

theorem extendedWord_iso (kind : Kind) (hasZ hasM : Bool) :
    extendedWord (typeWord .iso kind hasZ hasM false) =
      typeWord .extended kind hasZ hasM false := by
  cases kind <;> decide +revert

theorem extendedWord_extended (kind : Kind) (hasZ hasM s : Bool) :
    extendedWord (typeWord .extended kind hasZ hasM s) = typeWord .extended kind hasZ hasM s := by
  cases kind <;> decide +revert

theorem extendedWord_head {outer : Bool} {head : Head} (h : head.Admitted outer) :
    extendedWord head.word = (extendedHead head).word := by
  have hextended := h.extended
  obtain ⟨littleEndian, form, kind, hasZ, hasM, srid⟩ := head
  cases form with
  | iso =>
    cases srid with
    | none => exact extendedWord_iso kind hasZ hasM
    | some srid => exact absurd (hextended rfl) (by rintro ⟨⟩)
  | extended => exact extendedWord_extended kind hasZ hasM srid.isSome

theorem extend_segment {outer : Bool} {head : Head} (h : head.Admitted outer) (body : List UInt8) :
    (segment head body).extend = segment (extendedHead head) body := by
  unfold Segment.extend segment
  rw [extendedWord_head h]
  rfl

theorem segments_extended {outer : Bool} {g : Geometry} (h : g.WellFormed outer) :
    segments (extended g) = (segments g).map Segment.extend := by
  have hall {members : List Geometry}
      (ih : ∀ g ∈ members, segments (extended g) = (segments g).map Segment.extend) :
      segmentsAll (extendedAll members) = (segmentsAll members).map Segment.extend := by
    induction members with
    | nil => rw [extendedAll, segmentsAll]; rfl
    | cons g gs ihs =>
      obtain ⟨hg, hgs⟩ := List.forall_mem_cons.1 ih
      rw [extendedAll, segmentsAll, segmentsAll, List.map_append, hg, ihs hgs]
  induction h with
  | point hhead =>
    rw [extended, segments, segments, List.map_singleton, extend_segment hhead]
  | lineString hhead =>
    rw [extended, segments, segments, List.map_singleton, extend_segment hhead]
    rfl
  | circularString hhead =>
    rw [extended, segments, segments, List.map_singleton, extend_segment hhead]
    rfl
  | area hhead =>
    rw [extended, segments, segments, List.map_singleton, extend_segment hhead]
    rfl
  | collection hhead _ _ _ _ ih =>
    rw [extended, segments, segments, List.map_cons, extend_segment hhead, hall ih, extendedAll_eq,
      List.length_map]
    rfl

theorem admitted_extended {outer : Bool} {head : Head} (h : head.Admitted outer) :
    (extendedHead head).Admitted outer := ⟨fun _ => rfl, h.outer⟩

theorem wellFormed_extended {outer : Bool} {g : Geometry} (h : g.WellFormed outer) :
    (extended g).WellFormed outer := by
  induction h with
  | point hhead hkind hlength =>
    rw [extended]
    exact .point (admitted_extended hhead) hkind hlength
  | lineString hhead hkind hpositions hone =>
    rw [extended]
    exact .lineString (admitted_extended hhead) hkind hpositions hone
  | circularString hhead hkind hpositions hodd =>
    rw [extended]
    exact .circularString (admitted_extended hhead) hkind hpositions hodd
  | area hhead hkind hcount hrings =>
    rw [extended]
    exact .area (admitted_extended hhead) hkind hcount hrings
  | @collection outer head members hhead hcollects hcount _ hfits ih =>
    rw [extended, extendedAll_eq]
    refine .collection (admitted_extended hhead) hcollects (by rwa [List.length_map]) ?_ ?_
    · rw [List.forall_mem_map]
      exact ih
    · rw [List.forall_mem_map]
      intro g hg
      obtain ⟨hkind, hz, hm⟩ := hfits g hg
      rw [head_extended]
      exact ⟨hkind, hz, hm⟩

/-! ## The root -/

/-- A tree with another head at its root. -/
def onRoot (f : Head → Head) : Geometry → Geometry
  | .point head position => .point (f head) position
  | .line head positions => .line (f head) positions
  | .area head rings => .area (f head) rings
  | .collection head members => .collection (f head) members

def sridHead (srid : UInt32) (head : Head) : Head := { head with srid := some srid }

/-- The tree in the extended form, under an SRID. -/
def stamped (srid : UInt32) (g : Geometry) : Geometry := onRoot (sridHead srid) (extended g)

theorem wellFormed_onRoot {g : Geometry} {srid : UInt32} (h : g.WellFormed true)
    (hform : g.head.form = .extended) : (onRoot (sridHead srid) g).WellFormed true := by
  have hadmitted : (sridHead srid g.head).Admitted true := ⟨fun _ => hform, fun _ => rfl⟩
  cases h with
  | point _ hkind hlength => exact .point hadmitted hkind hlength
  | lineString _ hkind hpositions hone => exact .lineString hadmitted hkind hpositions hone
  | circularString _ hkind hpositions hodd => exact .circularString hadmitted hkind hpositions hodd
  | area _ hkind hcount hrings => exact .area hadmitted hkind hcount hrings
  | collection _ hcollects hcount hmembers hfits =>
    refine .collection hadmitted hcollects hcount hmembers fun g hg => ?_
    obtain ⟨hkind, hz, hm⟩ := hfits g hg
    exact ⟨hkind, hz, hm⟩

theorem wellFormed_stamped {g : Geometry} (srid : UInt32) (h : g.WellFormed true) :
    (stamped srid g).WellFormed true :=
  wellFormed_onRoot (wellFormed_extended h) (by rw [head_extended]; rfl)

/-- Two trees of the same size and the same coordinates. -/
structure Alike (g g' : Geometry) : Prop where
  components : g'.components = g.components
  levels : g'.levels = g.levels
  coordinates : g'.coordinates = g.coordinates
  hasZ : g'.anyHead Head.hasZ = g.anyHead Head.hasZ
  hasM : g'.anyHead Head.hasM = g.anyHead Head.hasM

structure AlikeAll (gs gs' : List Geometry) : Prop where
  components : Geometry.componentsAll gs' = Geometry.componentsAll gs
  levels : Geometry.levelsAll gs' = Geometry.levelsAll gs
  coordinates : Geometry.coordinatesAll gs' = Geometry.coordinatesAll gs
  hasZ : Geometry.anyHeadAll Head.hasZ gs' = Geometry.anyHeadAll Head.hasZ gs
  hasM : Geometry.anyHeadAll Head.hasM gs' = Geometry.anyHeadAll Head.hasM gs

theorem alike_collection {head head' : Head} {gs gs' : List Geometry} (h : AlikeAll gs gs')
    (hz : head'.hasZ = head.hasZ) (hm : head'.hasM = head.hasM) :
    Alike (.collection head gs) (.collection head' gs') := by
  constructor
  · rw [Geometry.components, Geometry.components, h.components]
  · rw [Geometry.levels, Geometry.levels, h.levels]
  · rw [Geometry.coordinates, Geometry.coordinates, h.coordinates]
  · rw [Geometry.anyHead, Geometry.anyHead, h.hasZ, hz]
  · rw [Geometry.anyHead, Geometry.anyHead, h.hasM, hm]

mutual

theorem alike_extended (g : Geometry) : Alike g (extended g) := by
  cases g with
  | point head position =>
    rw [extended]
    constructor <;> simp only [Geometry.components, Geometry.levels, Geometry.coordinates,
      Geometry.anyHead, extendedHead]
  | line head positions =>
    rw [extended]
    constructor <;> simp only [Geometry.components, Geometry.levels, Geometry.coordinates,
      Geometry.anyHead, extendedHead]
  | area head rings =>
    rw [extended]
    constructor <;> simp only [Geometry.components, Geometry.levels, Geometry.coordinates,
      Geometry.anyHead, extendedHead]
  | collection head members =>
    rw [extended]
    exact alike_collection (alikeAll_extended members) rfl rfl

theorem alikeAll_extended (gs : List Geometry) : AlikeAll gs (extendedAll gs) := by
  cases gs with
  | nil =>
    rw [extendedAll]
    exact ⟨rfl, rfl, rfl, rfl, rfl⟩
  | cons g gs =>
    have hg := alike_extended g
    have hgs := alikeAll_extended gs
    rw [extendedAll]
    constructor
    · rw [Geometry.componentsAll, Geometry.componentsAll, hg.components, hgs.components]
    · rw [Geometry.levelsAll, Geometry.levelsAll, hg.levels, hgs.levels]
    · rw [Geometry.coordinatesAll, Geometry.coordinatesAll, hg.coordinates, hgs.coordinates]
    · rw [Geometry.anyHeadAll, Geometry.anyHeadAll, hg.hasZ, hgs.hasZ]
    · rw [Geometry.anyHeadAll, Geometry.anyHeadAll, hg.hasM, hgs.hasM]

end

theorem alike_onRoot (srid : UInt32) (g : Geometry) : Alike g (onRoot (sridHead srid) g) := by
  cases g with
  | collection head members => exact alike_collection ⟨rfl, rfl, rfl, rfl, rfl⟩ rfl rfl
  | _ =>
    constructor <;> simp only [onRoot, Geometry.components, Geometry.levels, Geometry.coordinates,
      Geometry.anyHead, sridHead]

theorem alike_stamped (srid : UInt32) (g : Geometry) : Alike g (stamped srid g) := by
  have h := alike_extended g
  have h' := alike_onRoot srid (extended g)
  exact ⟨h'.components.trans h.components, h'.levels.trans h.levels,
    h'.coordinates.trans h.coordinates, h'.hasZ.trans h.hasZ, h'.hasM.trans h.hasM⟩

theorem head_stamped (srid : UInt32) (g : Geometry) :
    (stamped srid g).head = sridHead srid (extendedHead g.head) := by
  rw [← head_extended]
  unfold stamped
  cases extended g <;> rfl

theorem bytes_stamped (srid : UInt32) (g : Geometry) : (stamped srid g).bytes =
    (sridHead srid (extendedHead g.head)).bytes ++ (extended g).body := by
  rw [Geometry.bytes_eq, head_stamped]
  unfold stamped
  cases extended g <;> rfl

/-! ## The rewriting of a tree -/

theorem srids_none {outer : Bool} {g : Geometry} (h : g.WellFormed outer)
    (hroot : g.head.srid = none) : ∀ seg ∈ segments g, seg.srid = none := by
  have hall {members : List Geometry}
      (ih : ∀ g ∈ members, ∀ seg ∈ segments g, seg.srid = none) :
      ∀ seg ∈ segmentsAll members, seg.srid = none := by
    induction members with
    | nil =>
      rw [segmentsAll]
      exact fun seg hseg => by cases hseg
    | cons g gs ihs =>
      obtain ⟨hg, hgs⟩ := List.forall_mem_cons.1 ih
      rw [segmentsAll, List.forall_mem_append]
      exact ⟨hg, ihs hgs⟩
  induction h with
  | collection _ _ _ hmembers _ ih =>
    rw [segments, List.forall_mem_cons]
    refine ⟨hroot, hall fun g hg => ih g hg ?_⟩
    have houter := (hmembers g hg).admitted.outer
    cases hs : g.head.srid with
    | none => rfl
    | some srid =>
      rw [hs] at houter
      exact absurd (houter rfl) (by decide)
  | _ =>
    rw [segments, List.forall_mem_singleton]
    exact hroot

theorem walk_extendedForm {maxDepth depth deepest total : Nat} {frames : List Frame}
    {segs : List Segment} (h : Walk .strict maxDepth frames depth segs deepest total) :
    Walk .extendedForm maxDepth frames depth segs deepest total := by
  induction h with
  | last hzero hmax hholds hpush hnone =>
    exact .last hzero hmax ⟨hholds.unboxed, hholds.srid, hholds.body⟩ hpush hnone
  | more hzero hmax hholds hpush hsome _ ih =>
    exact .more hzero hmax ⟨hholds.unboxed, hholds.srid, hholds.body⟩ hpush hsome ih

/-- The root's word takes the SRID flag. -/
theorem word_sridHead (srid : UInt32) {head : Head} (hform : head.form = .extended)
    (hnone : head.srid = none) : head.word ||| 0x20000000 = (sridHead srid head).word := by
  obtain ⟨littleEndian, form, kind, hasZ, hasM, srid'⟩ := head
  subst hform hnone
  show typeWord .extended kind hasZ hasM false ||| 0x20000000 = typeWord .extended kind hasZ hasM true
  cases kind <;> decide +revert

/-- What the debug assertion compares. -/
theorem word_extendedHead {head : Head} (hnone : head.srid = none) :
    (extendedHead head).word &&& 0x0fffffff = (head.word &&& 0x0fffffff) % 1000 ∧
      head.word &&& 0x20000000 = 0 := by
  obtain ⟨littleEndian, form, kind, hasZ, hasM, srid⟩ := head
  subst hnone
  show typeWord .extended kind hasZ hasM false &&& 0x0fffffff =
    (typeWord form kind hasZ hasM false &&& 0x0fffffff) % 1000 ∧
      typeWord form kind hasZ hasM false &&& 0x20000000 = 0
  cases form <;> cases kind <;> decide +revert

/-- The bytes of a head without SRID: its byte order, then its word. -/
theorem bytes_head (head : Head) (hnone : head.srid = none) :
    ∃ b, (b = 0 ∨ b = 1) ∧ decide (b = 1) = head.littleEndian ∧
      head.bytes = b :: wordBytes head.littleEndian head.word := by
  unfold Head.bytes
  rw [hnone]
  cases head.littleEndian with
  | false => exact ⟨0, .inl rfl, rfl, List.append_nil _⟩
  | true => exact ⟨1, .inr rfl, rfl, List.append_nil _⟩

theorem take_word (b : UInt8) (littleEndian : Bool) (word : UInt32) (body : List UInt8) :
    ((b :: (wordBytes littleEndian word ++ body)).drop 1).take 4 = wordBytes littleEndian word := by
  rw [List.drop_one, List.tail_cons, ← length_wordBytes littleEndian word, List.take_left]

theorem drop_head (b : UInt8) (littleEndian : Bool) (word : UInt32) (body : List UInt8) :
    (b :: (wordBytes littleEndian word ++ body)).drop 5 = body := by
  have h : (wordBytes littleEndian word ++ body).drop (wordBytes littleEndian word).length = body :=
    List.drop_left
  rwa [length_wordBytes] at h

/-- **A value without SRID takes one at its root, in the extended form.** -/
theorem withRootSrid_value {g : Geometry} (srid : UInt32) {maxDepth : Nat}
    (hwell : g.WellFormed true) (hnone : g.head.srid = none) (hlevels : g.levels ≤ maxDepth)
    (hnesting : g.levels ≤ maxNesting + 1) (hcomponents : g.components < 2 ^ 64)
    (hlength : g.bytes.length < 2 ^ 64) :
    withRootSrid g.bytes srid maxDepth = some (.ok (stamped srid g).bytes) := by
  have hpos := g.levels_pos
  have hnest : maxNesting = 32 := rfl
  have hwalks : Walks maxDepth 1 g := walk_geometry hwell Nat.one_ne_zero (by omega) (by omega)
  have hwalk := hwalks [] [] 0 0 (.inl ⟨rfl, rfl, rfl, rfl⟩)
  rw [List.append_nil, Nat.add_zero] at hwalk
  have hext := walk_extendedForm hwalk
  obtain ⟨-, -, i, htells, -⟩ := exists_tells hext
  have hscan := scanEwkb_iff.2 ⟨show 2 ^ 64 - 1 ≠ 0 by decide, show maxDepth ≠ 0 by omega, segments g, _,
    _, hext, (bytesOf_segments g).symm, hlength, by omega, hcomponents, htells, rfl⟩
  have hembedded : i.hasAnyEmbeddedSrid = false := by
    rw [htells.hasAnyEmbeddedSrid, List.any_eq_false]
    intro seg hseg
    rw [srids_none hwell hnone seg hseg]
    decide
  have happly : applyPatches g.bytes (patchesOf .extendedForm 0 (segments g)) =
      some (extended g).bytes := by
    have hpatched := applyPatches_patchesOf patches_extended (segments g) []
    rw [List.nil_append, List.length_nil, List.nil_append, bytesOf_segments] at hpatched
    rw [hpatched, ← bytesOf_segments (extended g), segments_extended hwell]
    rfl
  obtain ⟨b, hb, hle, hbytes⟩ := bytes_head g.head hnone
  obtain ⟨hassert, hflag⟩ := word_extendedHead hnone
  have hroot : g.bytes = b :: (wordBytes g.head.littleEndian g.head.word ++ g.body) := by
    rw [Geometry.bytes_eq, hbytes]
    rfl
  have hrewritten : (extended g).bytes =
      b :: (wordBytes g.head.littleEndian (extendedHead g.head).word ++ (extended g).body) := by
    obtain ⟨b', hb', hle', hbytes'⟩ := bytes_head (extendedHead g.head) hnone
    have hsame : b' = b := by
      have hdecide : decide (b' = 1) = decide (b = 1) := hle'.trans hle.symm
      rcases hb with rfl | rfl <;> rcases hb' with rfl | rfl <;> simp_all
    rw [Geometry.bytes_eq, head_extended, hbytes', hsame]
    rfl
  have horder : (if g.head.littleEndian then [1] else [0]) = [b] := by
    rw [← hle]
    rcases hb with rfl | rfl <;> rfl
  have hlong : ¬ g.bytes.length < 5 := by
    rw [hroot, List.length_cons, List.length_append, length_wordBytes]
    omega
  have hhead : ¬ (g.bytes.head? ≠ some 0 ∧ g.bytes.head? ≠ some 1) := by
    rw [hroot]
    rcases hb with rfl | rfl
    · simp
    · simp
  have hle' : decide (g.bytes.head? = some 1) = g.head.littleEndian := by
    rw [hroot, ← hle]
    simp
  have hword : wordOfBytes g.head.littleEndian ((g.bytes.drop 1).take 4) = g.head.word := by
    rw [hroot, take_word, wordOfBytes_wordBytes]
  have hrootWord : wordOfBytes g.head.littleEndian (((extended g).bytes.drop 1).take 4) =
      (extendedHead g.head).word := by
    rw [hrewritten, take_word, wordOfBytes_wordBytes]
  unfold withRootSrid
  rw [hscan]
  dsimp only
  rw [hembedded, if_neg (by decide), if_neg hhead, if_neg hlong, hle', hword, if_neg (not_not.2 hflag),
    happly, Option.bind_some, hrootWord, if_neg (not_not.2 hassert),
    word_sridHead srid (show (extendedHead g.head).form = _ from rfl) hnone, bytes_stamped]
  have htake : g.bytes.take 1 = [b] := by
    rw [hroot]
    rfl
  have hdrop : (extended g).bytes.drop 5 = (extended g).body := by
    rw [hrewritten, drop_head]
  rw [htake, hdrop]
  unfold Head.bytes
  show _ = some (Except.ok (((if g.head.littleEndian then [1] else [0]) ++ wordBytes g.head.littleEndian _ ++
    wordBytes g.head.littleEndian srid) ++ _))
  rw [horder]
  simp only [List.append_assoc]

/-! ## What verification tells of the result -/

theorem length_extended {outer : Bool} {g : Geometry} (h : g.WellFormed outer) :
    (extended g).bytes.length = g.bytes.length := by
  rw [← bytesOf_segments, ← bytesOf_segments g, segments_extended h]
  exact length_words (fun seg => extendedWord seg.word) (segments g)

theorem length_stamped (srid : UInt32) {g : Geometry} (h : g.WellFormed true)
    (hnone : g.head.srid = none) : (stamped srid g).bytes.length = g.bytes.length + 4 := by
  have hlength := length_extended h
  obtain ⟨b, -, -, hbytes⟩ := bytes_head (extendedHead g.head) hnone
  rw [Geometry.bytes_eq (extended g), head_extended, hbytes, List.length_append, List.length_cons,
    length_wordBytes] at hlength
  have hhead : (sridHead srid (extendedHead g.head)).bytes.length = 9 := by
    unfold Head.bytes
    show (((if g.head.littleEndian then [1] else [0]) ++ wordBytes _ _ ++ wordBytes _ srid) :
      List UInt8).length = 9
    cases g.head.littleEndian <;> simp only [List.length_append, length_wordBytes] <;> rfl
  rw [bytes_stamped, List.length_append, hhead]
  omega

theorem inspection_stamped (srid : UInt32) {g : Geometry} : inspection (stamped srid g) =
    { inspection g with
      root := { (inspection g).root with srid := some srid }
      hasAnyEmbeddedSrid := true
      embeddedSridCount := 1 } := by
  obtain ⟨hcomponents, hlevels, -, hz, hm⟩ := alike_stamped srid g
  unfold inspection
  rw [hcomponents, hlevels, hz, hm, head_stamped]
  rfl

/-- **A value verified as `wkb` is verified as `ewkb` under the SRID it takes.**  The result is the
same tree in the extended form, with the SRID at its root, and its inspection tells the same. -/
theorem withRootSrid_exact {contract : ValueContract} (hwkb : contract.ewkb = some false)
    {bytes : List UInt8} (hbytes : bytes.length < 2 ^ 63) {maxComponents : Nat}
    (hmax : maxComponents < 2 ^ 64) {maxDepth : Nat} {phase : ErrorPhase} {i : EwkbInspection}
    (h : verifyValue contract bytes maxComponents maxDepth phase = .ok i) (srid : UInt32) :
    ∃ out g, withRootSrid bytes srid maxDepth = some (.ok out) ∧ out.length = bytes.length + 4 ∧
      verifyValue { contract with ewkb := some true, srid := some srid } out maxComponents maxDepth
          phase = .ok { i with
            root := { i.root with srid := some srid }
            hasAnyEmbeddedSrid := true
            embeddedSridCount := 1 } ∧
      Value bytes g ∧ Value out (stamped srid g) ∧ (stamped srid g).coordinates = g.coordinates := by
  obtain ⟨g, hvalue, hagrees, hcomponents, hlevels, rfl⟩ :=
    ((verifyValue_iff contract bytes (by omega) maxComponents hmax maxDepth phase).1 i).1 h
  obtain ⟨hwell, hnesting, rfl⟩ := hvalue
  have hnone : g.head.srid = none := by
    cases hs : g.head.srid with
    | none => rfl
    | some embedded =>
      rcases hagrees.srid embedded hs with ⟨hewkb, -⟩ | ⟨hewkb, -⟩
      · exact absurd (hwkb.symm.trans hewkb) (by decide)
      · exact absurd (hwkb.symm.trans hewkb) (by decide)
  have halike := alike_stamped srid g
  have hlength := length_stamped srid hwell hnone
  have hstamped : Value (stamped srid g).bytes (stamped srid g) :=
    ⟨wellFormed_stamped srid hwell, by rw [halike.levels]; exact hnesting, rfl⟩
  refine ⟨(stamped srid g).bytes, g, ?_, hlength, ?_, ⟨hwell, hnesting, rfl⟩, hstamped,
    halike.coordinates⟩
  · exact withRootSrid_value srid hwell hnone hlevels hnesting (by omega) (by omega)
  · refine ((verifyValue_iff _ _ (by omega) maxComponents hmax maxDepth phase).1 _).2
      ⟨stamped srid g, hstamped, ?_, ?_, ?_, (inspection_stamped srid).symm⟩
    · rw [head_stamped]
      refine ⟨fun srid' hsrid => .inl ⟨rfl, hsrid⟩, hagrees.type, hagrees.dimensions⟩
    · rw [halike.components]
      exact hcomponents
    · rw [halike.levels]
      exact hlevels

/-- A field that declares `wkb` and nothing else. -/
def wkbField : ValueContract := ⟨some false, none, none, none⟩

theorem withRootSrid_collection :
    ∃ out g, withRootSrid collectionBytes 4326 3 = some (.ok out) ∧ out.length = 105 ∧
      verifyValue ⟨some true, some 4326, none, none⟩ out 9 3 .write = .ok
        { stats := { components := 9, maxDepth := 3 }
          root := { baseType := 7, hasZ := false, hasM := false, srid := some 4326 }
          hasAnyZ := false, hasAnyM := false, hasAnyEmbeddedSrid := true, embeddedSridCount := 1 } ∧
      Value collectionBytes g ∧ Value out (stamped 4326 g) ∧
      (stamped 4326 g).coordinates = g.coordinates :=
  have hverify : verifyValue wkbField collectionBytes 9 3 .write = .ok
      { stats := { components := 9, maxDepth := 3 }
        root := { baseType := 7, hasZ := false, hasM := false, srid := none }
        hasAnyZ := false, hasAnyM := false
        hasAnyEmbeddedSrid := false, embeddedSridCount := 0 } := by decide +kernel
  withRootSrid_exact rfl (by decide) (by decide) hverify 4326

/-- A multipoint and its point in the ISO form, with Z. -/
def multiPointZ : List UInt8 :=
  [1, 0xec, 3, 0, 0, 1, 0, 0, 0] ++ ([1, 0xe9, 3, 0, 0] ++ List.replicate 24 0)

/-- The type word of the member changes too. -/
theorem multiPointZ_member_changes :
    verifyValue wkbField multiPointZ 4 2 .write = .ok
        { stats := { components := 3, maxDepth := 2 }
          root := { baseType := 4, hasZ := true, hasM := false, srid := none }
          hasAnyZ := true, hasAnyM := false
          hasAnyEmbeddedSrid := false, embeddedSridCount := 0 } ∧
      ∃ out, withRootSrid multiPointZ 4326 2 = some (.ok out) ∧ out.drop 9 ≠ multiPointZ.drop 5 :=
  ⟨by decide +kernel, [1, 4, 0, 0, 0xa0, 0xe6, 0x10, 0, 0, 1, 0, 0, 0] ++
    ([1, 1, 0, 0, 0x80] ++ List.replicate 24 0), by decide +kernel, by decide +kernel⟩

end Plenora.Core.EwkbSegments
