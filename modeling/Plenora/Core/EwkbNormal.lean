import Plenora.Core.EwkbSegments

/-!
# Marking the third ordinate

`normalizeUnmarkedXyz` writes the Z flag over every type word of a value that marks no Z.  What it
gives differs from the value in type words only and is read with Z everywhere; a word of the ISO
form for M alone gets the flag of the extended form beside its thousands.

    Reads mode d bytes segs → Reads mode d bytes segs' → segs = segs'                (reads_unique)
    normalizeUnmarkedXyz bytes c d = some (.ok out) →
      (Normalised c d bytes out ↔ every type word of bytes is of one form)         (normalised_iff)
-/

namespace Plenora.Core.EwkbSegments

open Plenora.Lib Plenora.Lib.WkbGrammar Plenora.Core.Ewkb

/-! ## The rewriting -/

/-- `copy_from_slice` over the bytes from `offset` on; `none` where there are too few. -/
def copyAt (bytes : List UInt8) (offset : Nat) (raw : List UInt8) : Option (List UInt8) :=
  if offset + raw.length ≤ bytes.length then
    some (bytes.take offset ++ (raw ++ bytes.drop (offset + raw.length)))
  else none

/-- The loop over the patches. -/
def applyPatches (bytes : List UInt8) (patches : List TypePatch) : Option (List UInt8) :=
  patches.foldlM
    (fun bytes patch => copyAt bytes patch.offset (wordBytes patch.littleEndian patch.typeWord))
    bytes

/-- `normalize_unmarked_xyz`; `none` is a panic. -/
def normalizeUnmarkedXyz (bytes : List UInt8) (maxComponents maxDepth : Nat) :
    Option (Result (List UInt8)) :=
  match scanEwkb bytes maxComponents maxDepth .forceUnmarkedZ with
  | .error e => some (.error e)
  | .ok (_, patches) => (applyPatches bytes patches).map .ok

theorem copyAt_bytes (before after : List UInt8) (seg : Segment) (word : UInt32) :
    copyAt (before ++ (seg.bytes ++ after)) (before.length + 1) (wordBytes seg.littleEndian word) =
      some (before ++ ({ seg with word }.bytes ++ after)) := by
  obtain ⟨b, horder⟩ : ∃ b, seg.order = [b] := by
    unfold Segment.order
    cases seg.littleEndian with
    | false => exact ⟨0, rfl⟩
    | true => exact ⟨1, rfl⟩
  have hbytes (w : UInt32) : before ++ ({ seg with word := w }.bytes ++ after) =
      (before ++ [b]) ++ (wordBytes seg.littleEndian w ++ (seg.sridBytes ++ seg.body ++ after)) := by
    show before ++ ((seg.order ++ (wordBytes seg.littleEndian w ++ (seg.sridBytes ++ seg.body))) ++
      after) = _
    rw [horder]
    simp only [List.append_assoc]
  have hone : before.length + 1 = (before ++ [b]).length := by simp
  have hwords : (wordBytes seg.littleEndian word).length =
      (wordBytes seg.littleEndian seg.word).length := by
    rw [length_wordBytes, length_wordBytes]
  rw [show seg.bytes = { seg with word := seg.word }.bytes from rfl, hbytes, hbytes, hone]
  unfold copyAt
  rw [if_pos (by simp only [List.length_append, hwords]; omega), List.take_left, hwords,
    ← List.drop_drop, List.drop_left, List.drop_left]

/-- **Patches at the type words of the geometries rewrite these words.** -/
theorem applyPatches_patchesOf {mode : DimensionMode} {rewritten : Segment → UInt32}
    (hpatches : ∀ (seg : Segment) (offset : Nat),
      seg.patches mode offset = [⟨offset, seg.littleEndian, rewritten seg⟩] ∨
        seg.patches mode offset = [] ∧ rewritten seg = seg.word)
    (segs : List Segment) (before : List UInt8) :
    applyPatches (before ++ bytesOf segs) (patchesOf mode before.length segs) =
      some (before ++ bytesOf (segs.map fun seg => { seg with word := rewritten seg })) := by
  induction segs generalizing before with
  | nil => rfl
  | cons seg segs ih =>
    have hlength : ({ seg with word := rewritten seg }.bytes).length = seg.bytes.length := by
      show (seg.order ++ (_ ++ (seg.sridBytes ++ seg.body))).length =
        (seg.order ++ (_ ++ (seg.sridBytes ++ seg.body))).length
      simp only [List.length_append, length_wordBytes]
    have hrest := ih (before ++ { seg with word := rewritten seg }.bytes)
    rw [List.length_append, hlength, List.append_assoc, List.append_assoc] at hrest
    show (seg.patches mode (before.length + 1) ++ _).foldlM _ (before ++ (seg.bytes ++ bytesOf segs)) =
      some (before ++ (_ ++ bytesOf _))
    rw [List.foldlM_append]
    rcases hpatches seg (before.length + 1) with h | ⟨h, hsame⟩
    · rw [h, List.foldlM_cons, copyAt_bytes]
      exact hrest
    · have hseg : { seg with word := rewritten seg } = seg := by rw [hsame]
      rw [hseg] at hrest
      rw [h]
      show _ = some (before ++ ({ seg with word := rewritten seg }.bytes ++ bytesOf _))
      rw [hseg]
      exact hrest

/-! ## Bytes are read in one way -/

/-- The bytes are these geometries, one after the other. -/
def Reads (mode : DimensionMode) (maxDepth : Nat) (bytes : List UInt8) (segs : List Segment) :
    Prop :=
  bytes = bytesOf segs ∧ ∃ deepest total, Walk mode maxDepth [] 1 segs deepest total

theorem word_unique {littleEndian : Bool} {v w : UInt32} {x y : List UInt8}
    (h : wordBytes littleEndian v ++ x = wordBytes littleEndian w ++ y) : v = w ∧ x = y := by
  obtain ⟨hword, hrest⟩ := List.append_inj h (by rw [length_wordBytes, length_wordBytes])
  have := congrArg (wordOfBytes littleEndian) hword
  rw [wordOfBytes_wordBytes, wordOfBytes_wordBytes] at this
  exact ⟨this, hrest⟩

theorem rings_unique {littleEndian : Bool} {dimensions n cost cost' : Nat}
    {raw raw' x y : List UInt8} (h : IsRings littleEndian dimensions n raw cost)
    (h' : IsRings littleEndian dimensions n raw' cost') (heq : raw ++ x = raw' ++ y) :
    raw = raw' ∧ x = y := by
  induction h generalizing raw' cost' with
  | none =>
    cases h'
    exact ⟨rfl, heq⟩
  | ring hlength _ ih =>
    cases h' with
    | ring hlength' hrest' =>
      simp only [List.append_assoc] at heq
      obtain ⟨rfl, hraw⟩ := word_unique heq
      obtain ⟨rfl, hmore⟩ := List.append_inj hraw (hlength.trans hlength'.symm)
      obtain ⟨rfl, rfl⟩ := ih hrest' hmore
      exact ⟨rfl, rfl⟩

theorem body_unique {littleEndian : Bool} {dimensions children children' cost cost' : Nat}
    {base : UInt32} {raw raw' x y : List UInt8}
    (h : IsBody littleEndian dimensions base raw children cost)
    (h' : IsBody littleEndian dimensions base raw' children' cost') (heq : raw ++ x = raw' ++ y) :
    raw = raw' ∧ children = children' ∧ x = y := by
  cases h with
  | point hbase hlength =>
    subst hbase
    cases h' with
    | point _ hlength' =>
      obtain ⟨rfl, rfl⟩ := List.append_inj heq (hlength.trans hlength'.symm)
      exact ⟨rfl, rfl, rfl⟩
    | line hbase => exact absurd hbase (by decide)
    | area hbase => exact absurd hbase (by decide)
    | members hbase => exact absurd hbase (by decide)
  | line hbase hlength =>
    cases h' with
    | point hbase' => rcases hbase with rfl | rfl <;> exact absurd hbase' (by decide)
    | line _ hlength' =>
      simp only [List.append_assoc] at heq
      obtain ⟨rfl, hraw⟩ := word_unique heq
      obtain ⟨rfl, rfl⟩ := List.append_inj hraw (hlength.trans hlength'.symm)
      exact ⟨rfl, rfl, rfl⟩
    | area hbase' => rcases hbase with rfl | rfl <;> exact absurd hbase' (by decide)
    | members hbase' => rcases hbase with rfl | rfl <;> exact absurd hbase' (by decide)
  | area hbase hrings =>
    cases h' with
    | point hbase' => rcases hbase with rfl | rfl <;> exact absurd hbase' (by decide)
    | line hbase' => rcases hbase with rfl | rfl <;> exact absurd hbase' (by decide)
    | area _ hrings' =>
      simp only [List.append_assoc] at heq
      obtain ⟨rfl, hraw⟩ := word_unique heq
      obtain ⟨rfl, rfl⟩ := rings_unique hrings hrings' hraw
      exact ⟨rfl, rfl, rfl⟩
    | members hbase' => rcases hbase with rfl | rfl <;> exact absurd hbase' (by decide)
  | members hbase =>
    cases h' with
    | point hbase' =>
      subst hbase'
      exact absurd hbase (by decide)
    | line hbase' => rcases hbase' with rfl | rfl <;> exact absurd hbase (by decide)
    | area hbase' => rcases hbase' with rfl | rfl <;> exact absurd hbase (by decide)
    | members =>
      obtain ⟨rfl, rfl⟩ := word_unique heq
      exact ⟨rfl, rfl, rfl⟩

theorem holds_unique {mode : DimensionMode} {seg seg' : Segment}
    {children children' cost cost' : Nat} {x y : List UInt8} (h : seg.Holds mode children cost)
    (h' : seg'.Holds mode children' cost') (heq : seg.bytes ++ x = seg'.bytes ++ y) :
    seg = seg' ∧ children = children' ∧ x = y := by
  obtain ⟨littleEndian, word, srid, body⟩ := seg
  obtain ⟨littleEndian', word', srid', body'⟩ := seg'
  unfold Segment.bytes at heq
  simp only [List.append_assoc] at heq
  obtain rfl : littleEndian = littleEndian' := by
    have := congrArg List.head? heq
    cases littleEndian <;> cases littleEndian' <;> simp_all [Segment.order]
  obtain ⟨rfl, hmore⟩ := word_unique (List.append_cancel_left heq)
  have hsrids : srid.isSome = srid'.isSome := h.srid.trans h'.srid.symm
  have hbody {x' y' : List UInt8} (hbodies : body ++ x' = body' ++ y') :
      body = body' ∧ children = children' ∧ x' = y' := body_unique h.body h'.body hbodies
  cases srid with
  | none =>
    cases srid' with
    | none =>
      obtain ⟨rfl, hchildren, hrest⟩ := hbody hmore
      exact ⟨rfl, hchildren, hrest⟩
    | some srid' => cases hsrids
  | some srid =>
    cases srid' with
    | none => cases hsrids
    | some srid' =>
      obtain ⟨rfl, hbodies⟩ := word_unique hmore
      obtain ⟨rfl, hchildren, hrest⟩ := hbody hbodies
      exact ⟨rfl, hchildren, hrest⟩

theorem walk_unique {mode : DimensionMode} {maxDepth depth deepest deepest' total total' : Nat}
    {frames : List Frame} {segs segs' : List Segment}
    (h : Walk mode maxDepth frames depth segs deepest total)
    (h' : Walk mode maxDepth frames depth segs' deepest' total') (heq : bytesOf segs = bytesOf segs') :
    segs = segs' := by
  induction h generalizing segs' deepest' total' with
  | last _ _ hholds hpush hnone =>
    cases h' with
    | last _ _ hholds' =>
      obtain ⟨rfl, -, -⟩ := holds_unique hholds hholds' heq
      rfl
    | more _ _ hholds' hpush' hsome' =>
      obtain ⟨rfl, rfl, -⟩ := holds_unique hholds hholds' heq
      obtain rfl := Except.ok.inj (hpush.symm.trans hpush')
      exact absurd (hnone.symm.trans hsome') (by simp)
  | more _ _ hholds hpush hsome _ ih =>
    cases h' with
    | last _ _ hholds' hpush' hnone' =>
      obtain ⟨rfl, rfl, -⟩ := holds_unique hholds hholds' heq
      obtain rfl := Except.ok.inj (hpush.symm.trans hpush')
      exact absurd (hnone'.symm.trans hsome) (by simp)
    | more _ _ hholds' hpush' hsome' hwalk' =>
      obtain ⟨rfl, rfl, hrest⟩ := holds_unique hholds hholds' heq
      obtain rfl := Except.ok.inj (hpush.symm.trans hpush')
      obtain ⟨rfl, rfl⟩ := Prod.mk.inj (Option.some.inj (hsome.symm.trans hsome'))
      rw [ih hwalk' hrest]

/-- **Bytes are read in one way.** -/
theorem reads_unique {mode : DimensionMode} {maxDepth : Nat} {bytes : List UInt8}
    {segs segs' : List Segment} (h : Reads mode maxDepth bytes segs)
    (h' : Reads mode maxDepth bytes segs') : segs = segs' := by
  obtain ⟨rfl, _, _, hwalk⟩ := h
  obtain ⟨heq, _, _, hwalk'⟩ := h'
  exact walk_unique hwalk hwalk' heq

/-! ## Marked words -/

/-- A type word with its Z marked. -/
def marked (word : UInt32) : UInt32 := if marksZ word then word else word ||| 0x80000000

theorem or_and_of_disjoint {word a b : UInt32} (h : a &&& b = 0) : (word ||| a) &&& b = word &&& b := by
  have hbits := congrArg UInt32.toBitVec h
  apply UInt32.toBitVec_inj.1
  simp only [UInt32.toBitVec_and, UInt32.toBitVec_or] at hbits ⊢
  rw [BitVec.and_comm, BitVec.and_or_distrib_left, BitVec.and_comm,
    BitVec.and_comm b.toBitVec a.toBitVec, hbits]
  exact BitVec.or_zero

/-- Marking Z leaves the other bits of a word. -/
theorem marked_and {word mask : UInt32} (h : 0x80000000 &&& mask = 0) :
    marked word &&& mask = word &&& mask := by
  unfold marked
  split
  next => rfl
  next => exact or_and_of_disjoint h

theorem code_marked (word : UInt32) : code (marked word) = code word := marked_and (by decide)

theorem baseType_marked (word : UInt32) : baseType (marked word) = baseType word := by
  unfold baseType
  rw [code_marked]

theorem marksM_marked (word : UInt32) : marksM (marked word) = marksM word := by
  unfold marksM
  rw [code_marked, marked_and (by decide)]

theorem carriesSrid_marked (word : UInt32) : carriesSrid (marked word) = carriesSrid word := by
  unfold carriesSrid
  rw [marked_and (by decide)]

theorem flag_and_self (word flag : UInt32) : (word ||| flag) &&& flag = flag := by
  apply UInt32.toBitVec_inj.1
  ext i
  simp only [UInt32.toBitVec_and, UInt32.toBitVec_or, BitVec.getElem_and, BitVec.getElem_or]
  cases word.toBitVec[i] <;> cases flag.toBitVec[i] <;> rfl

theorem marksZ_marked (word : UInt32) : marksZ (marked word) = true := by
  unfold marked
  split
  next h => exact h
  next =>
    unfold marksZ
    rw [flag_and_self]
    rfl

/-! ## Two forms in one word -/

/-- A type word of the ISO form that carries a dimension flag of the extended form. -/
def Mixed (word : UInt32) : Prop := 1000 ≤ code word ∧ word &&& 0xc0000000 ≠ 0

/-- A type word that stays of one form when its Z is marked: without thousands, or without flags
and with a Z among its thousands. -/
def OfOneForm (word : UInt32) : Prop :=
  code word < 1000 ∨ word &&& 0xc0000000 = 0 ∧ (code word < 2000 ∨ 3000 ≤ code word)

theorem isoZ_iff (c : UInt32) :
    (Scanner.isoDimensions c).2.1 = true ↔ 1000 ≤ c ∧ c < 2000 ∨ 3000 ≤ c := by
  unfold Scanner.isoDimensions
  simp only [ge_iff_le, UInt32.lt_iff_toNat_lt, UInt32.le_iff_toNat_le, UInt32.reduceToNat]
  split
  next => simp; omega
  next =>
  split
  next => simp; omega
  next =>
  split
  next => simp; omega
  next => simp; omega

theorem mixed_marked_iff (word : UInt32) : Mixed (marked word) ↔ ¬ OfOneForm word := by
  have hiso := isoZ_iff (code word)
  have hflag : word &&& 0xc0000000 = 0 → word &&& 0x80000000 = 0 := by
    intro h
    have := congrArg (· &&& 0x80000000) h
    rwa [UInt32.and_assoc] at this
  unfold Mixed OfOneForm
  rw [code_marked]
  simp only [UInt32.le_iff_toNat_le, UInt32.lt_iff_toNat_lt, UInt32.reduceToNat] at hiso ⊢
  by_cases hz : marksZ word = true
  · have hmarked : marked word = word := if_pos hz
    rw [hmarked]
    unfold marksZ at hz
    rw [Bool.or_eq_true, bne_iff_ne, hiso] at hz
    by_cases hflags : word &&& 0xc0000000 = 0
    · have := hflag hflags
      simp only [hflags, ne_eq, not_true_eq_false, and_false, true_and, false_iff, not_not]
      rcases hz with hz | hz
      · exact absurd this hz
      · omega
    · simp only [hflags, ne_eq, not_false_eq_true, and_true, false_and, or_false, not_lt]
  · have hmarked : marked word = word ||| 0x80000000 := if_neg hz
    have hset : marked word &&& 0xc0000000 ≠ 0 := by
      intro h
      have hself := flag_and_self word 0x80000000
      have hmask : (0x80000000 : UInt32) = 0xc0000000 &&& 0x80000000 := by decide
      rw [hmask, ← UInt32.and_assoc, ← hmask, ← hmarked, h] at hself
      exact absurd hself (by decide)
    unfold marksZ at hz
    rw [Bool.or_eq_true, bne_iff_ne, hiso] at hz
    simp only [hset, ne_eq, not_false_eq_true, and_true]
    omega

/-! ## Normalised values -/

def Segment.mark (seg : Segment) : Segment := { seg with word := marked seg.word }

theorem holds_mark (mode : DimensionMode) {seg : Segment} {children cost : Nat}
    (h : seg.Holds .forceUnmarkedZ children cost) : seg.mark.Holds mode children cost := by
  have hz : seg.mark.hasZ mode = seg.hasZ .forceUnmarkedZ := by
    show (marksZ (marked seg.word) || _) = (marksZ seg.word || true)
    rw [marksZ_marked, Bool.true_or, Bool.or_true]
  have hm : seg.mark.hasM = seg.hasM := marksM_marked seg.word
  refine ⟨(marked_and (by decide)).trans h.unboxed, h.srid.trans (carriesSrid_marked _).symm, ?_⟩
  unfold Segment.dimensions
  rw [hz, hm]
  show IsBody _ _ (baseType (marked seg.word)) _ _ _
  rw [baseType_marked]
  exact h.body

theorem walk_mark (mode : DimensionMode) {maxDepth depth deepest total : Nat} {frames : List Frame}
    {segs : List Segment} (h : Walk .forceUnmarkedZ maxDepth frames depth segs deepest total) :
    Walk mode maxDepth frames depth (segs.map Segment.mark) deepest total := by
  induction h with
  | last hzero hmax hholds hpush hnone => exact .last hzero hmax (holds_mark mode hholds) hpush hnone
  | more hzero hmax hholds hpush hsome _ ih =>
    exact .more hzero hmax (holds_mark mode hholds) hpush hsome ih

theorem patches_forced (seg : Segment) (offset : Nat) :
    seg.patches .forceUnmarkedZ offset = [⟨offset, seg.littleEndian, marked seg.word⟩] ∨
      seg.patches .forceUnmarkedZ offset = [] ∧ marked seg.word = seg.word := by
  unfold Segment.patches marked
  by_cases hz : marksZ seg.word = true
  · exact .inr ⟨by simp [hz], if_pos hz⟩
  · exact .inl (by simp [hz])

theorem patchesOf_strict (offset : Nat) (segs : List Segment) :
    patchesOf .strict offset segs = [] := by
  induction segs generalizing offset with
  | nil => rfl
  | cons seg segs ih => simp [patchesOf, Segment.patches, ih]

theorem patchesOf_marked {segs : List Segment} (h : ∀ seg ∈ segs, marksZ seg.word = true)
    (offset : Nat) : patchesOf .forceUnmarkedZ offset segs = [] := by
  induction segs generalizing offset with
  | nil => rfl
  | cons seg segs ih =>
    rw [List.forall_mem_cons] at h
    simp [patchesOf, Segment.patches, h.1, ih h.2]

/-- Other type words take as many bytes. -/
theorem length_words (rewritten : Segment → UInt32) (segs : List Segment) :
    (bytesOf (segs.map fun seg => { seg with word := rewritten seg })).length =
      (bytesOf segs).length := by
  induction segs with
  | nil => rfl
  | cons seg segs ih =>
    show ({ seg with word := rewritten seg }.bytes ++ bytesOf (segs.map _)).length =
      (seg.bytes ++ bytesOf segs).length
    rw [List.length_append, List.length_append, ih]
    unfold Segment.bytes
    simp only [List.length_append, length_wordBytes]
    rfl

theorem exists_tells {mode : DimensionMode} {maxDepth depth deepest total : Nat}
    {frames : List Frame} {segs : List Segment}
    (h : Walk mode maxDepth frames depth segs deepest total) :
    ∃ seg ∈ segs, ∃ i, Tells mode segs deepest total i ∧ i.root = (seg.header mode).metadata := by
  obtain ⟨seg, hmem, hroot⟩ : ∃ seg ∈ segs, rootOf mode segs = some (seg.header mode).metadata := by
    cases h with
    | last => exact ⟨_, List.mem_cons_self, rfl⟩
    | more => exact ⟨_, List.mem_cons_self, rfl⟩
  exact ⟨seg, hmem, ⟨⟨total, deepest⟩, (seg.header mode).metadata, segs.any (·.hasZ mode),
    segs.any (·.hasM), segs.any (·.srid.isSome), segs.countP (·.srid.isSome)⟩,
    ⟨rfl, rfl, hroot, rfl, rfl, rfl, rfl⟩, rfl⟩

/-- What a normalisation is to give: the value with other type words at most, read strictly with
Z at the root and at every member, in words of one form, and left as it is by another one. -/
structure Normalised (maxComponents maxDepth : Nat) (bytes out : List UInt8) : Prop where
  length : out.length = bytes.length
  words : ∃ segs segs', Reads .forceUnmarkedZ maxDepth bytes segs ∧ Reads .strict maxDepth out segs' ∧
    List.Forall₂ (fun before after => ∃ word, after = { before with word }) segs segs'
  accepted : ∃ i, scanEwkb out maxComponents maxDepth .strict = .ok (i, []) ∧ i.root.hasZ = true
  marked : ∀ segs, Reads .strict maxDepth out segs → ∀ seg ∈ segs, marksZ seg.word = true
  unmixed : ∀ segs, Reads .strict maxDepth out segs → ∀ seg ∈ segs, ¬ Mixed seg.word
  again : normalizeUnmarkedXyz out maxComponents maxDepth = some (.ok out)

/-- Where the normalisation succeeds, the value is a sequence of geometries and the result the same
sequence with every Z marked. -/
theorem normalize_eq_ok {bytes out : List UInt8} {maxComponents maxDepth : Nat}
    (h : normalizeUnmarkedXyz bytes maxComponents maxDepth = some (.ok out)) :
    maxComponents ≠ 0 ∧ maxDepth ≠ 0 ∧ ∃ segs deepest total,
      Walk .forceUnmarkedZ maxDepth [] 1 segs deepest total ∧ bytes = bytesOf segs ∧
        bytes.length < 2 ^ 64 ∧ total ≤ maxComponents ∧ total < 2 ^ 64 ∧
        out = bytesOf (segs.map Segment.mark) := by
  unfold normalizeUnmarkedXyz at h
  split at h
  next => cases h
  next i patches hscan =>
    obtain ⟨hcomponents, hdepth, segs, deepest, total, hwalk, rfl, hshort, hpaid, hcounted, -, rfl⟩ :=
      scanEwkb_iff.1 hscan
    have happly := applyPatches_patchesOf patches_forced segs []
    rw [List.nil_append, List.length_nil] at happly
    rw [happly, Option.map_some, Option.some.injEq, Except.ok.injEq] at h
    exact ⟨hcomponents, hdepth, segs, deepest, total, hwalk, rfl, hshort, hpaid, hcounted, h.symm⟩

/-- The patches of a scan lie inside the value: no write goes out of its bytes. -/
theorem normalize_total (bytes : List UInt8) (maxComponents maxDepth : Nat) :
    normalizeUnmarkedXyz bytes maxComponents maxDepth ≠ none := by
  unfold normalizeUnmarkedXyz
  split
  next => simp
  next i patches hscan =>
    obtain ⟨-, -, segs, deepest, total, -, rfl, -, -, -, -, rfl⟩ := scanEwkb_iff.1 hscan
    have happly := applyPatches_patchesOf patches_forced segs []
    rw [List.nil_append, List.length_nil] at happly
    rw [happly]
    simp

/-- **A normalisation gives what it is to give exactly on the values whose type words stay of one
form.** -/
theorem normalised_iff {bytes out : List UInt8} {maxComponents maxDepth : Nat}
    (h : normalizeUnmarkedXyz bytes maxComponents maxDepth = some (.ok out)) :
    Normalised maxComponents maxDepth bytes out ↔
      ∀ segs, Reads .forceUnmarkedZ maxDepth bytes segs → ∀ seg ∈ segs, OfOneForm seg.word := by
  obtain ⟨hcomponents, hdepth, segs, deepest, total, hwalk, rfl, hshort, hpaid, hcounted, rfl⟩ :=
    normalize_eq_ok h
  have hreads : Reads .forceUnmarkedZ maxDepth (bytesOf segs) segs := ⟨rfl, deepest, total, hwalk⟩
  have hstrict : Reads .strict maxDepth (bytesOf (segs.map Segment.mark)) (segs.map Segment.mark) :=
    ⟨rfl, deepest, total, walk_mark .strict hwalk⟩
  have hmarked : ∀ seg ∈ segs.map Segment.mark, marksZ seg.word = true := by
    intro seg hseg
    obtain ⟨seg, -, rfl⟩ := List.mem_map.1 hseg
    exact marksZ_marked seg.word
  have hlength : (bytesOf (segs.map Segment.mark)).length = (bytesOf segs).length :=
    length_words (fun seg => marked seg.word) segs
  constructor
  · intro hnormalised segs' hreads' seg hseg
    rw [reads_unique hreads' hreads] at hseg
    have := hnormalised.unmixed _ hstrict seg.mark (List.mem_map_of_mem hseg)
    exact not_not.1 fun hform => this ((mixed_marked_iff seg.word).2 hform)
  · intro hforms
    obtain ⟨first, hfirst, i, htells, hroot⟩ := exists_tells (walk_mark .strict hwalk)
    refine ⟨hlength, ⟨segs, segs.map Segment.mark, hreads, hstrict, ?_⟩, ?_, ?_, ?_, ?_⟩
    · rw [List.forall₂_map_right_iff]
      exact List.forall₂_same.2 fun seg _ => ⟨_, rfl⟩
    · refine ⟨i, scanEwkb_iff.2 ⟨hcomponents, hdepth, segs.map Segment.mark, deepest, total,
        walk_mark .strict hwalk, rfl, by omega, hpaid, hcounted, htells,
        (patchesOf_strict _ _).symm⟩, ?_⟩
      rw [hroot]
      show (marksZ first.word || false) = true
      rw [hmarked first hfirst]
      rfl
    · intro segs' hreads' seg hseg
      rw [reads_unique hreads' hstrict] at hseg
      exact hmarked seg hseg
    · intro segs' hreads' seg hseg
      rw [reads_unique hreads' hstrict] at hseg
      obtain ⟨seg, hmem, rfl⟩ := List.mem_map.1 hseg
      exact fun hmixed => (mixed_marked_iff seg.word).1 hmixed (hforms segs hreads seg hmem)
    · obtain ⟨_, _, _, htells', -⟩ := exists_tells (walk_mark .forceUnmarkedZ hwalk)
      have hscan := scanEwkb_iff.2 ⟨hcomponents, hdepth, segs.map Segment.mark, deepest, total,
        walk_mark .forceUnmarkedZ hwalk, rfl, by omega, hpaid, hcounted, htells',
        (patchesOf_marked hmarked 0).symm⟩
      unfold normalizeUnmarkedXyz
      rw [hscan]
      rfl

/-- A point whose third ordinate is not marked, and the same with the Z flag. -/
def pointUnmarked : List UInt8 := [1, 1, 0, 0, 0] ++ List.replicate 24 0

def pointZ : List UInt8 := [1, 1, 0, 0, 0x80] ++ List.replicate 24 0

/-- The bytes of one point. -/
theorem reads_point (mode : DimensionMode) {seg : Segment} (h : seg.Holds mode 0 1) :
    Reads mode 1 seg.bytes [seg] :=
  ⟨(List.append_nil _).symm, 1, 2, .last (by decide) (by decide) h rfl rfl⟩

theorem normalised_pointUnmarked : Normalised 2 1 pointUnmarked pointZ := by
  refine (normalised_iff (by decide +kernel)).2 fun segs hreads seg hseg => ?_
  have hholds : Segment.Holds .forceUnmarkedZ ⟨true, 1, none, List.replicate 24 0⟩ 0 1 :=
    ⟨by decide, by decide, .point (by decide) (by decide)⟩
  rw [reads_unique hreads (reads_point _ hholds), List.mem_singleton] at hseg
  rw [hseg]
  exact .inl (by decide)

/-- A point of the ISO form for M alone, 2001, with its third and fourth ordinate. -/
def pointM : List UInt8 := [1, 0xd1, 7, 0, 0] ++ List.replicate 32 0

/-- The same with the Z flag beside the thousands. -/
def pointMixed : List UInt8 := [1, 0xd1, 7, 0, 0x80] ++ List.replicate 32 0

theorem pointM_not_normalised :
    normalizeUnmarkedXyz pointM 2 1 = some (.ok pointMixed) ∧ ¬ Normalised 2 1 pointM pointMixed := by
  refine ⟨by decide +kernel, fun hnormalised => ?_⟩
  have hholds : Segment.Holds .strict ⟨true, 0x800007d1, none, List.replicate 32 0⟩ 0 1 :=
    ⟨by decide, by decide, .point (by decide) (by decide)⟩
  exact hnormalised.unmixed _ (reads_point _ hholds) _ List.mem_cons_self ⟨by decide, by decide⟩

end Plenora.Core.EwkbSegments
