import Plenora.Core.GeometryValue

/-!
# The two WKB readers agree

`decode` recurses over the members; `scanEwkb` keeps a stack of frames.  The
scanner that stands where the reader stands (`Reader.asScanner`) takes every
step the reader takes, so a value `decode` accepts is inspected identically:

    r.geometryWithin levels depth outer = .ok (header, r') →
      scanLoop (r.asScanner srid) frames (depth + 1) root = resume (r'.asScanner …) frames …
                                                                      (scan_geometry)
    decode bytes c d phase = .ok i → inspectEwkbDetailed bytes c d = .ok i   (decode_agrees)
-/

namespace Plenora.Core.WkbAgreement

open Plenora.Lib Plenora.Core.Ewkb Plenora.Core.GeometryValue

/-! ## The reader seen as a scanner -/

/-- The strict scanner in the reader's state, `srid` being the embedded SRID met so far. -/
def asScanner (r : Reader) (srid : Option UInt32) : Scanner :=
  { bytes := r.bytes
    offset := r.offset
    components := r.components
    maxComponents := r.maxComponents
    maxDepth := r.maxDepth
    observedDepth := r.observedDepth
    hasAnyZ := r.hasAnyZ
    hasAnyM := r.hasAnyM
    hasAnyEmbeddedSrid := srid.isSome
    embeddedSridCount := srid.isSome.toNat
    dimensionMode := .strict
    typePatches := [] }

/-- The reader's header as the scanner reports it. -/
def asEwkb (h : GeometryValue.Header) : Ewkb.Header :=
  { baseType := h.baseType
    dimensions := 2 + h.hasZ.toNat + h.hasM.toNat
    littleEndian := h.littleEndian
    hasZ := h.hasZ
    hasM := h.hasM
    srid := h.srid }

/-! ## Type codes -/

theorem and_two_pow_eq_zero {n : Nat} (k : Nat) (h : n % 2 ^ (k + 1) < 2 ^ k) : n &&& 2 ^ k = 0 := by
  apply Nat.eq_of_testBit_eq
  intro i
  have hk : (n % 2 ^ (k + 1)).testBit k = false := Nat.testBit_lt_two_pow h
  rw [Nat.testBit_mod_two_pow] at hk
  simp only [Nat.testBit_and, Nat.testBit_two_pow, Nat.zero_testBit]
  by_cases hi : k = i
  · subst hi
    simpa using hk
  · simp [hi]

theorem base_lt {base : UInt32} (h : ¬ base / 1000 > 3) : base.toNat < 4000 := by
  rw [gt_iff_lt, UInt32.not_lt, UInt32.le_iff_toNat_le, UInt32.toNat_div] at h
  simp at h
  omega

/-- A code with at most three thousands has no bounding box flag, and both readers see the
same base. -/
theorem low_eq_base {code : UInt32} (h : ¬ (code &&& 0x1fffffff) / 1000 > 3) :
    code &&& 0x0fffffff = code &&& 0x1fffffff ∧ code &&& 0x10000000 = 0 := by
  have hbase : (code &&& 0x1fffffff).toNat = code.toNat % 2 ^ 29 := by
    rw [UInt32.toNat_and]
    exact Nat.and_two_pow_sub_one_eq_mod code.toNat 29
  have hlow : (code &&& 0x0fffffff).toNat = code.toNat % 2 ^ 28 := by
    rw [UInt32.toNat_and]
    exact Nat.and_two_pow_sub_one_eq_mod code.toNat 28
  have hlt := base_lt h
  rw [hbase] at hlt
  constructor
  · apply UInt32.toNat.inj
    rw [hbase, hlow]
    omega
  · apply UInt32.toNat.inj
    rw [UInt32.toNat_and]
    exact and_two_pow_eq_zero 28 (by omega)

/-- The scanner's chain of subtractions is the reader's division by 1000. -/
theorem isoDimensions_eq {base : UInt32} (h : ¬ base / 1000 > 3) :
    Scanner.isoDimensions base =
      (base % 1000, base / 1000 == 1 || base / 1000 == 3, decide (base / 1000 ≥ 2)) := by
  have hb := base_lt h
  have hsub (k : UInt32) (hk : k.toNat ≤ base.toNat) (hlt : base.toNat < k.toNat + 1000)
      (hm : k.toNat % 1000 = 0) : base - k = base % 1000 := by
    apply UInt32.toNat.inj
    rw [UInt32.toNat_sub_of_le _ _ (UInt32.le_iff_toNat_le.2 hk), UInt32.toNat_mod]
    simp only [UInt32.reduceToNat]
    omega
  unfold Scanner.isoDimensions
  simp only [ge_iff_le, UInt32.le_iff_toNat_le, beq_eq_decide, ← UInt32.toNat_inj,
    UInt32.toNat_div, UInt32.reduceToNat]
  split
  next h3 =>
    have e : base.toNat / 1000 = 3 := by omega
    simp [e, hsub 3000 h3 (by simpa using hb) (by decide)]
  next h3 =>
  split
  next h2 =>
    have e : base.toNat / 1000 = 2 := by omega
    simp [e, hsub 2000 h2 (by simpa using h3) (by decide)]
  next h2 =>
  split
  next h1 =>
    have e : base.toNat / 1000 = 1 := by omega
    simp [e, hsub 1000 h1 (by simpa using h2) (by decide)]
  next h1 =>
    have e : base.toNat / 1000 = 0 := by omega
    have hself : base = base % 1000 := by
      apply UInt32.toNat.inj
      rw [UInt32.toNat_mod]
      simp only [UInt32.reduceToNat]
      omega
    simp [e, ← hself]

/-! ## Step lemmas -/

theorem take_asScanner {r r' : Reader} {n : Nat} {raw : List UInt8} (k : Option UInt32)
    (h : r.take n = .ok (raw, r')) : (asScanner r k).take n = .ok (raw, asScanner r' k) := by
  unfold Reader.take at h
  simp only [bind_eq_ok, okOr_eq_ok, Option.filter_eq_some_iff, checkedAdd_eq_some,
    decide_eq_true_eq, Except.ok.injEq, Prod.mk.injEq] at h
  obtain ⟨stop, ⟨⟨hlt, rfl⟩, hle⟩, rfl, rfl⟩ := h
  have hadd : checkedAdd 64 r.offset n = some (r.offset + n) := checkedAdd_eq_some.2 ⟨hlt, rfl⟩
  simp [Scanner.take, asScanner, hadd, failIf_neg (not_lt.2 hle)]

theorem take_length {r r' : Reader} {n : Nat} {raw : List UInt8} (h : r.take n = .ok (raw, r')) :
    raw.length = n ∧ r' = { r with offset := r.offset + n } ∧ r'.offset ≤ r.bytes.length := by
  unfold Reader.take at h
  simp only [bind_eq_ok, okOr_eq_ok, Option.filter_eq_some_iff, checkedAdd_eq_some,
    decide_eq_true_eq, Except.ok.injEq, Prod.mk.injEq] at h
  obtain ⟨stop, ⟨⟨-, rfl⟩, hle⟩, rfl, rfl⟩ := h
  refine ⟨?_, rfl, hle⟩
  rw [List.length_take, List.length_drop]
  omega

theorem u32_asScanner {r r' : Reader} {le : Bool} {v : UInt32} (k : Option UInt32)
    (h : r.u32 le = .ok (v, r')) : (asScanner r k).u32 le = .ok (v, asScanner r' k) := by
  unfold Reader.u32 at h
  simp only [bind_eq_ok, Except.ok.injEq, Prod.mk.injEq] at h
  obtain ⟨⟨raw, r₁⟩, ht, rfl, rfl⟩ := h
  simp [Scanner.u32, take_asScanner k ht]

theorem byteOrder_asScanner {r r' : Reader} {le : Bool} (k : Option UInt32)
    (h : r.byteOrder = .ok (le, r')) : (asScanner r k).byteOrder = .ok (le, asScanner r' k) := by
  unfold Reader.byteOrder at h
  simp only [bind_eq_ok] at h
  obtain ⟨⟨raw, r₁⟩, ht, h⟩ := h
  unfold Scanner.byteOrder
  rw [take_asScanner k ht, ok_bind]
  dsimp only at h ⊢
  split at h <;> simp_all

theorem addComponents_asScanner {r r' : Reader} {n : Nat} (k : Option UInt32)
    (h : r.addComponents n = .ok r') :
    (asScanner r k).addComponents n = .ok (asScanner r' k) := by
  unfold Reader.addComponents at h
  simp only [bind_eq_ok, okOr_eq_ok, failIf_eq_ok, exists_const, Except.ok.injEq] at h
  obtain ⟨c, hc, hle, rfl⟩ := h
  simp [Scanner.addComponents, asScanner, hc, failIf_neg hle]

theorem count_asScanner {r r' : Reader} {le : Bool} {n size : Nat} (k : Option UInt32)
    (h : r.count le size = .ok (n, r')) :
    ∃ v : UInt32, v.toNat = n ∧ (asScanner r k).u32 le = .ok (v, asScanner r' k) := by
  unfold Reader.count at h
  simp only [bind_eq_ok, Except.ok.injEq, Prod.mk.injEq] at h
  obtain ⟨⟨v, r₁⟩, hu, -, -, rfl, rfl⟩ := h
  exact ⟨v, rfl, u32_asScanner k hu⟩

/-- The reader looks at the bytes before the budget and the scanner the other way round: when
both are enough the order does not show. -/
theorem points_asScanner {r r' : Reader} {n dims : Nat} {raw : List UInt8} (k : Option UInt32)
    (hn : n < 2 ^ 32) (hd : dims ≤ 4) (h : r.points n (8 * dims) = .ok (raw, r')) :
    (asScanner r k).coordinates n dims = .ok (asScanner r' k) := by
  unfold Reader.points at h
  simp only [bind_eq_ok, okOr_eq_ok, Option.filter_eq_some_iff, checkedMul_eq_some] at h
  obtain ⟨bytes, ⟨⟨-, rfl⟩, -⟩, r₁, ha, ht⟩ := h
  have hnd : n * dims ≤ 2 ^ 32 * 4 := Nat.mul_le_mul (by omega) hd
  have hmul : (checkedMul 64 n dims).bind (checkedMul 64 · 8) = some (n * (8 * dims)) := by
    have h₁ : checkedMul 64 n dims = some (n * dims) :=
      checkedMul_eq_some.2 ⟨by omega, rfl⟩
    rw [h₁, Option.bind_some]
    exact checkedMul_eq_some.2 ⟨by omega, by rw [Nat.mul_comm 8 dims, Nat.mul_assoc]⟩
  simp [Scanner.coordinates, addComponents_asScanner k ha, hmul, take_asScanner k ht]

theorem ring_asScanner {r r' : Reader} {le : Bool} {dims : Nat} (k : Option UInt32)
    (hd : dims ≤ 4) (h : r.ring le (8 * dims) = .ok r') :
    ∃ v s, (asScanner r k).u32 le = .ok (v, s) ∧
      s.coordinates v.toNat dims = .ok (asScanner r' k) := by
  unfold Reader.ring at h
  simp only [bind_eq_ok, failIf_eq_ok, exists_const, Except.ok.injEq] at h
  obtain ⟨⟨v, r₁⟩, hu, ⟨raw, r₂⟩, hp, -, rfl⟩ := h
  exact ⟨v, _, u32_asScanner k hu, points_asScanner k v.toNat_lt hd hp⟩

theorem rings_asScanner {le : Bool} {dims n : Nat} {r r' : Reader} (k : Option UInt32)
    (hd : dims ≤ 4) (h : Reader.rings le (8 * dims) n r = .ok r') :
    Scanner.rings le dims n (asScanner r k) = .ok (asScanner r' k) := by
  induction n generalizing r with
  | zero =>
    simp only [Reader.rings, Except.ok.injEq] at h
    subst h
    rfl
  | succ n ih =>
    simp only [Reader.rings, bind_eq_ok] at h
    obtain ⟨r₁, hr, h⟩ := h
    obtain ⟨v, s, hu, hc⟩ := ring_asScanner k hd hr
    simp [Scanner.rings, hu, hc, ih h]

theorem headerPatches_asScanner (r : Reader) (k : Option UInt32) (offset : Nat) (le : Bool)
    (word base : UInt32) (marked isoZ isoM hasZ hasM : Bool) :
    (asScanner r k).headerPatches offset le word base marked isoZ isoM hasZ hasM = [] := by
  simp [Scanner.headerPatches, asScanner]

/-- An ISO code carries no flag, and a code below 1000 no ISO dimension: the scanner's `or` of
the two marks is the reader's choice between them. -/
theorem marks_eq (thousands : UInt32) (flag : Bool) (iso : UInt32 → Bool) (h0 : iso 0 = false)
    (h : thousands > 0 → flag = false) :
    (flag || iso thousands) = if thousands > 0 then iso thousands else flag := by
  split
  next hp => simp [h hp]
  next hp =>
    have : thousands = 0 := by
      rw [gt_iff_lt, UInt32.not_lt] at hp
      exact UInt32.le_zero_iff.1 hp
    simp [this, h0]

theorem header_asScanner {r r' : Reader} {outer : Bool} {h : GeometryValue.Header}
    (k : Option UInt32) (hr : r.header outer = .ok (h, r')) :
    (asScanner r k).header = .ok (asEwkb h, asScanner r' k) ∧
      typeNames.any (·.1 == h.baseType) ∧ (outer = false → h.srid = none) := by
  unfold Reader.header at hr
  simp only [bind_eq_ok, failIf_eq_ok, exists_const] at hr
  obtain ⟨⟨le, r₁⟩, hbo, ⟨code, r₂⟩, hc, hth, hiso, hkind, hr⟩ := hr
  dsimp only at hc hth hiso hkind hr
  obtain ⟨hlow, hbox⟩ := low_eq_base hth
  -- the scanner's marks are the reader's
  have hz := marks_eq ((code &&& 0x1fffffff) / 1000) (code &&& flagZ != 0)
    (fun t => t == 1 || t == 3) rfl (by
      intro hp
      by_contra hf
      exact hiso ⟨hp, Or.inl (by simpa using hf)⟩)
  have hm := marks_eq ((code &&& 0x1fffffff) / 1000) (code &&& flagM != 0)
    (fun t => decide (t ≥ 2)) rfl (by
      intro hp
      by_contra hf
      exact hiso ⟨hp, Or.inr (Or.inl (by simpa using hf))⟩)
  unfold Scanner.header
  rw [byteOrder_asScanner k hbo, ok_bind]
  dsimp only
  rw [u32_asScanner k hc, ok_bind]
  dsimp only
  rw [failIf_neg (by simp [hbox]), ok_bind, hlow, isoDimensions_eq hth]
  dsimp only
  have hmode : ({asScanner r₂ k with typePatches := []} : Scanner) = asScanner r₂ k := rfl
  have hstrict : decide ((asScanner r₂ k).dimensionMode = .forceUnmarkedZ) = false := rfl
  rw [headerPatches_asScanner, hmode, hstrict, Bool.or_false, ← flagZ, ← flagM, ← flagSrid, hz, hm]
  split at hr
  next hsrid =>
    simp only [bind_eq_ok, failIf_eq_ok, exists_const, Except.ok.injEq, Prod.mk.injEq] at hr
    obtain ⟨houter, ⟨srid, r₃⟩, hu, rfl, rfl⟩ := hr
    rw [if_pos hsrid, u32_asScanner k hu, ok_bind]
    exact ⟨rfl, by simpa using hkind, by simp_all⟩
  next hsrid =>
    simp only [Except.ok.injEq, Prod.mk.injEq] at hr
    obtain ⟨rfl, rfl⟩ := hr
    rw [if_neg hsrid]
    exact ⟨rfl, by simpa using hkind, fun _ => rfl⟩

/-- The coordinates of a geometry without members: the scanner reads as many and counts no
children. -/
theorem coordinates_asScanner {r r' : Reader} {h : GeometryValue.Header} (k : Option UInt32)
    (hsimple : h.isContainer = false) (hr : r.coordinates h = .ok r') :
    (asScanner r k).body (asEwkb h) = .ok (0, asScanner r' k) := by
  have hdims : 2 + h.hasZ.toNat + h.hasM.toNat ≤ 4 := by
    have := Bool.toNat_le h.hasZ
    have := Bool.toNat_le h.hasM
    omega
  unfold Reader.coordinates at hr
  unfold Scanner.body
  dsimp only [asEwkb, GeometryValue.Header.width] at hr ⊢
  split at hr
  next h1 =>
    simp only [bind_eq_ok, Except.ok.injEq] at hr
    obtain ⟨⟨raw, r₁⟩, hp, rfl⟩ := hr
    rw [if_pos h1, points_asScanner k (by decide) hdims hp, ok_bind]
  next h1 =>
  split at hr
  next h2 =>
    simp only [bind_eq_ok, failIf_eq_ok, exists_const, Except.ok.injEq] at hr
    obtain ⟨⟨count, r₁⟩, hu, ⟨raw, r₂⟩, hp, -, rfl⟩ := hr
    rw [if_neg h1, if_pos (Or.inl h2), u32_asScanner k hu, ok_bind]
    dsimp only
    rw [points_asScanner k count.toNat_lt hdims hp, ok_bind]
  next h2 =>
  split at hr
  next h8 =>
    simp only [bind_eq_ok, failIf_eq_ok, exists_const, Except.ok.injEq] at hr
    obtain ⟨⟨count, r₁⟩, hu, ⟨raw, r₂⟩, hp, -, rfl⟩ := hr
    rw [if_neg h1, if_pos (Or.inr h8), u32_asScanner k hu, ok_bind]
    dsimp only
    rw [points_asScanner k count.toNat_lt hdims hp, ok_bind]
  next h8 =>
    simp only [bind_eq_ok, failIf_eq_ok, exists_const] at hr
    obtain ⟨⟨n, r₁⟩, hcount, -, r₂, ha, hrings⟩ := hr
    obtain ⟨v, rfl, hu⟩ := count_asScanner k hcount
    have h3 : h.baseType = 3 ∨ h.baseType = 17 := by
      simp [GeometryValue.Header.isContainer, h1, h2, h8] at hsimple
      tauto
    rw [if_neg h1, if_neg (by tauto), if_pos h3, hu, ok_bind]
    dsimp only
    rw [addComponents_asScanner k ha, ok_bind, rings_asScanner k hdims hrings, ok_bind]

/-- A container's member count is what the scanner returns as children. -/
theorem container_asScanner {r r' : Reader} {h : GeometryValue.Header} {n : Nat}
    (k : Option UInt32) (hkind : typeNames.any (·.1 == h.baseType)) (hcont : h.isContainer = true)
    (hr : r.count h.littleEndian 5 = .ok (n, r')) :
    (asScanner r k).body (asEwkb h) = .ok (n, asScanner r' k) := by
  obtain ⟨v, rfl, hu⟩ := count_asScanner k hr
  have hmem : (4 ≤ h.baseType ∧ h.baseType ≤ 7) ∨ (9 ≤ h.baseType ∧ h.baseType ≤ 12) ∨
      h.baseType = 15 ∨ h.baseType = 16 := by
    simp only [typeNames, List.any_cons, List.any_nil, Bool.or_false, Bool.or_eq_true,
      beq_iff_eq] at hkind
    unfold GeometryValue.Header.isContainer at hcont
    generalize h.baseType = base at hkind hcont ⊢
    rcases hkind with rfl | rfl | rfl | rfl | rfl | rfl | rfl | rfl | rfl | rfl | rfl | rfl |
      rfl | rfl | rfl <;> first | decide | simp at hcont
  simp only [GeometryValue.Header.isContainer, Bool.and_eq_true, bne_iff_ne] at hcont
  unfold Scanner.body
  dsimp only [asEwkb]
  rw [if_neg (by tauto), if_neg (by tauto), if_neg (by tauto), if_pos hmem, hu, ok_bind]

/-- The SRID met once a geometry with this header has been entered. -/
def metSrid (k : Option UInt32) (h : GeometryValue.Header) : Option UInt32 := k.or h.srid

/-- Entering a geometry: the scanner's `geometry` comes down to reading its body. -/
theorem enter_asScanner {r r' : Reader} {depth : Nat} {outer : Bool} {h : GeometryValue.Header}
    (k : Option UInt32) (hk : outer = true → k = none)
    (hr : r.enter depth outer = .ok (h, r')) :
    (asScanner r k).geometry (depth + 1) = (do
        let (children, s) ← (asScanner r' (metSrid k h)).body (asEwkb h)
        .ok ((children, asEwkb h), s)) ∧
      typeNames.any (·.1 == h.baseType) ∧ (outer = false → h.srid = none) := by
  unfold Reader.enter at hr
  simp only [bind_eq_ok, failIf_eq_ok, exists_const, Except.ok.injEq, Prod.mk.injEq] at hr
  obtain ⟨-, hdepth, r₁, ha, ⟨h₁, r₂⟩, hh, rfl, rfl⟩ := hr
  obtain ⟨hs, hkind, hmember⟩ := header_asScanner k hh
  refine ⟨?_, hkind, hmember⟩
  unfold Scanner.geometry
  have ha := addComponents_asScanner k ha
  rw [failIf_neg (by simp only [asScanner]; omega), ok_bind]
  dsimp only
  rw [show ({ asScanner r k with observedDepth := max (asScanner r k).observedDepth (depth + 1) }
    : Scanner) = asScanner { r with observedDepth := max r.observedDepth (depth + 1) } k from rfl,
    ha, ok_bind, hs, ok_bind]
  cases hsrid : h₁.srid with
  | none => cases k <;> simp [metSrid, asScanner, asEwkb, hsrid]
  | some v =>
    -- only the root carries an SRID, and nothing was met before the root
    have : k = none := by
      cases outer with
      | true => exact hk rfl
      | false => simp [hmember rfl] at hsrid
    subst this
    simp [metSrid, asScanner, asEwkb, hsrid, checkedAdd]

theorem enter_depth {r r' : Reader} {depth : Nat} {outer : Bool} {h : GeometryValue.Header}
    (hr : r.enter depth outer = .ok (h, r')) :
    depth ≤ maxNesting ∧ depth < r.maxDepth ∧ 0 < r.maxComponents := by
  unfold Reader.enter Reader.addComponents at hr
  simp only [bind_eq_ok, failIf_eq_ok, exists_const, okOr_eq_ok, checkedAdd_eq_some,
    Except.ok.injEq] at hr
  obtain ⟨hnest, hdepth, r₁, ⟨c, ⟨-, rfl⟩, hc, -⟩, -⟩ := hr
  exact ⟨by omega, by omega, by omega⟩

/-! ## The walk over the members -/

theorem scanLoop_simple {s s' : Scanner} {frames : List Frame} {depth : Nat}
    {root : Option EwkbGeometryMetadata} {h : Ewkb.Header}
    (hg : s.geometry depth = .ok ((0, h), s')) :
    scanLoop s frames depth root = resume s' frames (root.or (some h.metadata)) := by
  rw [scanLoop_eq, hg, ok_bind]
  rfl

theorem scanLoop_container {s s' : Scanner} {frames : List Frame} {depth n : Nat}
    {root : Option EwkbGeometryMetadata} {h : Ewkb.Header}
    (hg : s.geometry depth = .ok ((n, h), s')) (hd : 0 < n → depth < s'.maxDepth)
    (hlt : depth < 2 ^ 32) :
    scanLoop s frames depth root =
      resume s' ({ remaining := n, childDepth := depth + 1 } :: frames)
        (root.or (some h.metadata)) := by
  rw [scanLoop_eq, hg, ok_bind]
  dsimp only
  rcases Nat.eq_zero_or_pos n with rfl | hn
  · -- no frame is opened, and a frame with nothing left is dropped
    rfl
  · have hadd : checkedAdd 64 depth 1 = some (depth + 1) := checkedAdd_eq_some.2 ⟨by omega, rfl⟩
    have := hd hn
    rw [pushFrame, if_pos hn, hadd, okOr_some, ok_bind, failIf_neg (by omega), ok_bind, ok_bind]

/-- The run of the scanner over `n` members, when each is scanned as the reader reads it. -/
theorem scan_members {member : Reader → Result (GeometryValue.Header × Reader)}
    {container : GeometryValue.Header} {depth : Nat} {root : EwkbGeometryMetadata}
    {k : Option UInt32} {frames : List Frame}
    (step : ∀ r r' h frames, member r = .ok (h, r') →
      scanLoop (asScanner r k) frames depth (some root) =
          resume (asScanner r' k) frames (some root) ∧
        r'.offset ≤ r'.bytes.length)
    {n : Nat} {r r' : Reader} (hin : r.offset ≤ r.bytes.length)
    (h : Reader.members member container n r = .ok r') :
    resume (asScanner r k) ({ remaining := n, childDepth := depth } :: frames) (some root) =
        resume (asScanner r' k) frames (some root) ∧
      r'.offset ≤ r'.bytes.length := by
  induction n generalizing r with
  | zero =>
    simp only [Reader.members, Except.ok.injEq] at h
    subst h
    exact ⟨rfl, hin⟩
  | succ n ih =>
    simp only [Reader.members, bind_eq_ok] at h
    obtain ⟨⟨hd, r₁⟩, hm, _, -, h⟩ := h
    have hnext : nextMember ({ remaining := n + 1, childDepth := depth } :: frames) =
        some (depth, { remaining := n, childDepth := depth } :: frames) := rfl
    obtain ⟨hscan, hin₁⟩ := step r r₁ hd ({ remaining := n, childDepth := depth } :: frames) hm
    rw [resume, hnext]
    dsimp only
    rw [hscan]
    exact ih hin₁ h

/-- A geometry read within `levels` was entered, and only the outer one may carry an SRID. -/
theorem geometryWithin_enter {levels : Nat} {r r' : Reader} {depth : Nat} {outer : Bool}
    {h : GeometryValue.Header} (hr : r.geometryWithin levels depth outer = .ok (h, r')) :
    ∃ r₁, r.enter depth outer = .ok (h, r₁) := by
  cases levels with
  | zero => simp [Reader.geometryWithin] at hr
  | succ levels =>
    simp only [Reader.geometryWithin, bind_eq_ok] at hr
    obtain ⟨⟨h₁, r₁⟩, he, hr⟩ := hr
    refine ⟨r₁, ?_⟩
    dsimp only at hr
    split at hr <;> simp only [bind_eq_ok, Except.ok.injEq, Prod.mk.injEq] at hr
    · obtain ⟨-, -, -, -, rfl, -⟩ := hr
      exact he
    · obtain ⟨-, -, rfl, -⟩ := hr
      exact he

/-- Members exist only where their depth is within the limit. -/
theorem members_depth {levels depth n : Nat} {container : GeometryValue.Header} {r r' : Reader}
    (h : Reader.members (fun r => r.geometryWithin levels depth false) container n r = .ok r')
    (hn : 0 < n) : depth < r.maxDepth := by
  obtain ⟨m, rfl⟩ : ∃ m, n = m + 1 := ⟨n - 1, by omega⟩
  simp only [Reader.members, bind_eq_ok] at h
  obtain ⟨⟨hd, r₁⟩, hm, -⟩ := h
  obtain ⟨r₂, he⟩ := geometryWithin_enter hm
  exact (enter_depth he).2.1

/-- **One geometry.** Where the reader reads a geometry with all its members, the scanner
walks over it and resumes at the same place, inside the input. -/
theorem scan_geometry (levels : Nat) :
    ∀ {r r' : Reader} {depth : Nat} {outer : Bool} {h : GeometryValue.Header}
      (k : Option UInt32) (frames : List Frame) (root : Option EwkbGeometryMetadata),
      (outer = true → k = none) → r.geometryWithin levels depth outer = .ok (h, r') →
      scanLoop (asScanner r k) frames (depth + 1) root =
          resume (asScanner r' (metSrid k h)) frames (root.or (some (asEwkb h).metadata)) ∧
        r'.offset ≤ r'.bytes.length := by
  induction levels with
  | zero => intro r r' depth outer h k frames root _ hr; simp [Reader.geometryWithin] at hr
  | succ levels ih =>
    intro r r' depth outer h k frames root hk hr
    simp only [Reader.geometryWithin, bind_eq_ok] at hr
    obtain ⟨⟨h₁, r₁⟩, he, hr⟩ := hr
    obtain ⟨hgeom, hkind, -⟩ := enter_asScanner k hk he
    dsimp only at hr
    cases hcont : h₁.isContainer with
    | false =>
      simp only [hcont, Bool.false_eq_true, if_false, bind_eq_ok, Except.ok.injEq,
        Prod.mk.injEq] at hr
      obtain ⟨r₂, hc, rfl, rfl⟩ := hr
      rw [coordinates_asScanner _ hcont hc, ok_bind] at hgeom
      exact ⟨scanLoop_simple hgeom, (Scanner.geometry_advances hgeom).2.1⟩
    | true =>
      simp only [hcont, if_true, bind_eq_ok, Except.ok.injEq, Prod.mk.injEq] at hr
      obtain ⟨⟨n, r₂⟩, hcount, r₃, hm, rfl, rfl⟩ := hr
      rw [container_asScanner _ hkind hcont hcount, ok_bind] at hgeom
      have hlt : depth + 1 < 2 ^ 32 := by
        have := (enter_depth he).1
        unfold maxNesting at this
        omega
      rw [scanLoop_container hgeom (members_depth hm) hlt, Option.or_some]
      refine scan_members (fun q q' hd frames hq => ?_) (Scanner.geometry_advances hgeom).2.1 hm
      -- a member carries no SRID, and the root's header is already known
      obtain ⟨q₁, hq₁⟩ := geometryWithin_enter hq
      have hnone : metSrid (metSrid k h₁) hd = metSrid k h₁ := by
        have : hd.srid = none := (enter_asScanner none (by simp) hq₁).2.2 rfl
        simp [metSrid, this]
      have := ih (metSrid k h₁) frames (some (root.getD (asEwkb h₁).metadata)) (by simp) hq
      rwa [hnone, Option.or_some] at this

/-! ## Top theorem -/

/-- **The readers agree.** Whatever `decode` accepts, the scanner accepts under the same limits
and inspects identically. -/
theorem decode_agrees (bytes : List UInt8) (maxComponents maxDepth : Nat) (phase : ErrorPhase)
    (inspection : EwkbInspection)
    (h : decode bytes maxComponents maxDepth phase = .ok inspection) :
    inspectEwkbDetailed bytes maxComponents maxDepth = .ok inspection := by
  unfold decode Reader.geometry at h
  simp only [bind_eq_ok, failIf_eq_ok, exists_const, Except.ok.injEq] at h
  obtain ⟨⟨root, r⟩, hg, hrest, rfl⟩ := h
  obtain ⟨hscan, hin⟩ := scan_geometry _ none [] none (by simp) hg
  obtain ⟨r₁, he⟩ := geometryWithin_enter hg
  obtain ⟨-, hdepth, hcomp⟩ := enter_depth he
  have hend : r.offset = r.bytes.length := by
    unfold Reader.remaining at hrest
    dsimp only at hin hrest
    omega
  have hstart : Scanner.start bytes maxComponents maxDepth .strict =
      asScanner (.start bytes maxComponents maxDepth phase) none := rfl
  have hlimits : ¬ (maxComponents = 0 ∨ maxDepth = 0) := by
    simp only [Reader.start] at hdepth hcomp
    omega
  unfold inspectEwkbDetailed scanEwkb
  rw [failIf_neg hlimits, ok_bind, hstart, hscan, resume]
  dsimp only [nextMember]
  rw [finish, failIf_neg (by simp [asScanner, hend])]
  rfl

/-- A little-endian collection in EWKB with SRID 4326: two points in a multipoint, and a
big-endian line. -/
def collection : List UInt8 :=
  [1, 7, 0, 0, 0x20, 0xe6, 0x10, 0, 0, 2, 0, 0, 0] ++
    ([1, 4, 0, 0, 0, 2, 0, 0, 0] ++ ([1, 1, 0, 0, 0] ++ List.replicate 16 0) ++
      ([1, 1, 0, 0, 0] ++ List.replicate 16 0)) ++
    ([0, 0, 0, 0, 2, 0, 0, 0, 2] ++ List.replicate 32 0)

theorem decode_agrees_collection :
    inspectEwkbDetailed collection 10 4 =
      .ok { stats := { components := 9, maxDepth := 3 }
            root := { baseType := 7, hasZ := false, hasM := false, srid := some 4326 }
            hasAnyZ := false, hasAnyM := false
            hasAnyEmbeddedSrid := true, embeddedSridCount := 1 } :=
  decode_agrees _ 10 4 .read _ (by decide +kernel)

end Plenora.Core.WkbAgreement
