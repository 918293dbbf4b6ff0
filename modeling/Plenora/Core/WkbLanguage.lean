import Plenora.Core.WkbAgreement
import Plenora.Lib.WkbGrammar

/-!
# The reader accepts the language

Each step of the reader succeeds exactly when the bytes ahead of it are a piece of
the grammar that its budget admits, and then it stands behind that piece.

    r.geometryWithin levels depth outer = .ok (h, r') ↔
      ∃ g, g.WellFormed outer ∧ … ∧ Reads r r' g.bytes (g.account depth)   (geometryWithin_iff)
    verifyValue contract bytes c d phase = .ok i ↔
      ∃ g, Value bytes g ∧ Agrees contract g.head ∧ g.components ≤ c ∧ g.levels ≤ d ∧
        i = inspection g                                                      (verifyValue_iff)
-/

namespace Plenora.Core.WkbLanguage

open Plenora.Lib Plenora.Lib.WkbGrammar Plenora.Core.GeometryValue
open Plenora.Core.Ewkb (EwkbInspection)

/-! ## What reading a piece leaves -/

/-- What a piece of a value adds to the reader's account. -/
structure Account where
  components : Nat
  depth : Nat
  anyZ : Bool
  anyM : Bool
  deriving DecidableEq, Repr

namespace Account

def none : Account := ⟨0, 0, false, false⟩

def parts (n : Nat) : Account := ⟨n, 0, false, false⟩

def plus (a b : Account) : Account :=
  ⟨a.components + b.components, max a.depth b.depth, a.anyZ || b.anyZ, a.anyM || b.anyM⟩

@[simp] theorem none_plus (a : Account) : none.plus a = a := by
  simp [none, plus]

@[simp] theorem plus_none (a : Account) : a.plus none = a := by
  simp [none, plus]

@[simp] theorem parts_plus_parts (m n : Nat) : (parts m).plus (parts n) = parts (m + n) := by
  simp [parts, plus]

end Account

def rest (r : Reader) : List UInt8 := r.bytes.drop r.offset

/-- The reader behind `n` bytes that cost `a`. -/
def after (r : Reader) (n : Nat) (a : Account) : Reader :=
  { r with
    offset := r.offset + n
    components := r.components + a.components
    observedDepth := max r.observedDepth a.depth
    hasAnyZ := r.hasAnyZ || a.anyZ
    hasAnyM := r.hasAnyM || a.anyM }

/-- Inside its bytes and its budget, both in machine words. -/
structure Sound (r : Reader) : Prop where
  within : r.offset ≤ r.bytes.length
  short : r.bytes.length < 2 ^ 64
  paid : r.components ≤ r.maxComponents
  limit : r.maxComponents < 2 ^ 64

/-- `raw` is ahead of `r`, and `r'` stands behind it. -/
structure Reads (r r' : Reader) (raw : List UInt8) (a : Account) : Prop where
  rest : rest r = raw ++ rest r'
  after : r' = after r raw.length a
  sound : Sound r'

theorem after_after (r : Reader) (m n : Nat) (a b : Account) :
    after (after r m a) n b = after r (m + n) (a.plus b) := by
  simp [after, Account.plus, Nat.add_assoc, Nat.max_assoc, Bool.or_assoc]

theorem Reads.remaining {r r' : Reader} {raw : List UInt8} {a : Account} (h : Reads r r' raw a) :
    r.remaining = raw.length + r'.remaining := by
  have := congrArg List.length h.rest
  rw [List.length_append] at this
  unfold WkbLanguage.rest at this
  rwa [List.length_drop, List.length_drop] at this

theorem Reads.maxDepth {r r' : Reader} {raw : List UInt8} {a : Account} (h : Reads r r' raw a) :
    r'.maxDepth = r.maxDepth := by
  rw [h.after]
  rfl

theorem reads_nil {r r' : Reader} (hr : Sound r) : Reads r r' [] .none ↔ r' = r := by
  have hsame : after r 0 .none = r := by simp [after, Account.none]
  constructor
  · intro h
    exact h.after.trans hsame
  · rintro rfl
    exact ⟨rfl, hsame.symm, hr⟩

/-- **Pieces follow each other.** -/
theorem reads_append {r r₂ : Reader} {x y : List UInt8} {a b : Account} (hr : Sound r) :
    Reads r r₂ (x ++ y) (a.plus b) ↔ ∃ r₁, Reads r r₁ x a ∧ Reads r₁ r₂ y b := by
  constructor
  · intro h
    have hrest := h.rest
    have hafter := h.after
    have hsound := h.sound
    rw [hafter] at hsound
    rw [List.length_append, ← after_after] at hafter hsound
    have hrest₁ : rest (after r x.length a) = y ++ rest r₂ := by
      show r.bytes.drop (r.offset + x.length) = _
      rw [← List.drop_drop]
      show (rest r).drop x.length = _
      rw [hrest, List.append_assoc, List.drop_left]
    refine ⟨after r x.length a, ⟨?_, rfl, ?_⟩, ⟨hrest₁, hafter, h.sound⟩⟩
    · rw [hrest₁, hrest, List.append_assoc]
    · have hwithin := hsound.within
      have hpaid := hsound.paid
      dsimp only [after] at hwithin hpaid
      refine ⟨?_, hr.short, ?_, hr.limit⟩
      · show r.offset + x.length ≤ r.bytes.length
        omega
      · show r.components + a.components ≤ r.maxComponents
        omega
  · rintro ⟨r₁, h₁, h₂⟩
    refine ⟨?_, ?_, h₂.sound⟩
    · rw [h₁.rest, h₂.rest, List.append_assoc]
    · rw [List.length_append, ← after_after, ← h₁.after]
      exact h₂.after

/-! ## Steps -/

section Steps

variable {r : Reader} (hr : Sound r)

include hr

theorem take_iff {r' : Reader} {n : Nat} {raw : List UInt8} :
    r.take n = .ok (raw, r') ↔ raw.length = n ∧ Reads r r' raw .none := by
  have hsame : after r n .none = { r with offset := r.offset + n } := by
    simp [after, Account.none]
  constructor
  · intro h
    obtain ⟨hlen, hafter, hwithin⟩ := WkbAgreement.take_length h
    have hraw : raw = (rest r).take n := by
      unfold Reader.take at h
      simp only [bind_eq_ok, Except.ok.injEq, Prod.mk.injEq] at h
      obtain ⟨stop, -, hraw, -⟩ := h
      exact hraw.symm
    refine ⟨hlen, ?_, ?_, ?_⟩
    · rw [hafter, hraw]
      show _ = _ ++ r.bytes.drop (r.offset + n)
      rw [← List.drop_drop]
      exact (List.take_append_drop n (rest r)).symm
    · rw [hlen, hsame, hafter]
    · rw [hafter] at hwithin ⊢
      exact ⟨hwithin, hr.short, hr.paid, hr.limit⟩
  · rintro ⟨rfl, h⟩
    have hwithin := h.sound.within
    have hafter := h.after
    rw [hsame] at hafter
    rw [hafter] at hwithin
    dsimp only at hwithin
    have hstop : (checkedAdd 64 r.offset raw.length).filter (· ≤ r.bytes.length) =
        some (r.offset + raw.length) := by
      have := hr.short
      rw [Option.filter_eq_some_iff, checkedAdd_eq_some, decide_eq_true_eq]
      omega
    have htake : (r.bytes.drop r.offset).take raw.length = raw := by
      show (rest r).take raw.length = raw
      rw [h.rest, List.take_left]
    unfold Reader.take
    rw [hstop, okOr_some, ok_bind, htake, hafter]

theorem u32_iff {r' : Reader} {littleEndian : Bool} {w : UInt32} :
    r.u32 littleEndian = .ok (w, r') ↔ Reads r r' (wordBytes littleEndian w) .none := by
  unfold Reader.u32
  simp only [bind_eq_ok, Except.ok.injEq, Prod.mk.injEq, Prod.exists, take_iff hr]
  constructor
  · rintro ⟨raw, r₁, ⟨hlen, hreads⟩, hw, rfl⟩
    rwa [(wordOfBytes_eq_iff hlen).1 hw] at hreads
  · intro h
    exact ⟨_, r', ⟨length_wordBytes littleEndian w, h⟩, wordOfBytes_wordBytes littleEndian w, rfl⟩

theorem addComponents_iff {r' : Reader} {n : Nat} :
    r.addComponents n = .ok r' ↔ Reads r r' [] (.parts n) := by
  have hsame : after r 0 (.parts n) = { r with components := r.components + n } := by
    simp [after, Account.parts]
  unfold Reader.addComponents
  simp only [bind_eq_ok, okOr_eq_ok, checkedAdd_eq_some, failIf_eq_ok, exists_const,
    Except.ok.injEq]
  constructor
  · rintro ⟨c, ⟨-, rfl⟩, hpaid, rfl⟩
    exact ⟨rfl, hsame.symm, hr.within, hr.short, not_lt.1 hpaid, hr.limit⟩
  · intro h
    have hafter := h.after
    rw [List.length_nil, hsame] at hafter
    have hpaid := h.sound.paid
    have hlimit := hr.limit
    rw [hafter] at hpaid
    dsimp only at hpaid
    exact ⟨_, ⟨by omega, rfl⟩, by omega, hafter.symm⟩

theorem byteOrder_iff {r' : Reader} {littleEndian : Bool} :
    r.byteOrder = .ok (littleEndian, r') ↔
      Reads r r' (if littleEndian then [1] else [0]) .none := by
  unfold Reader.byteOrder
  simp only [bind_eq_ok, Prod.exists, take_iff hr]
  constructor
  · rintro ⟨raw, r₁, ⟨-, hreads⟩, h⟩
    split at h
    next => cases h; exact hreads
    next => cases h; exact hreads
    next => cases h
  · intro h
    refine ⟨_, r', ⟨?_, h⟩, ?_⟩
    · cases littleEndian <;> rfl
    · cases littleEndian <;> rfl

theorem points_iff {r' : Reader} {count width : Nat} {raw : List UInt8} :
    r.points count width = .ok (raw, r') ↔
      raw.length = count * width ∧ Reads r r' raw (.parts count) := by
  have hplus : Account.parts count = (Account.parts count).plus .none := by simp
  unfold Reader.points
  simp only [bind_eq_ok, okOr_eq_ok, Option.filter_eq_some_iff, checkedMul_eq_some,
    decide_eq_true_eq, addComponents_iff hr]
  constructor
  · rintro ⟨bytes, ⟨⟨-, rfl⟩, -⟩, r₁, hparts, htake⟩
    obtain ⟨hlen, hraw⟩ := (take_iff hparts.sound).1 htake
    rw [hplus, ← List.nil_append raw]
    exact ⟨hlen, (reads_append hr).2 ⟨r₁, hparts, hraw⟩⟩
  · rintro ⟨hlen, h⟩
    have hremaining := h.remaining
    have hshort := hr.short
    unfold Reader.remaining at hremaining
    rw [hplus, ← List.nil_append raw] at h
    obtain ⟨r₁, hparts, hraw⟩ := (reads_append hr).1 h
    refine ⟨count * width, ⟨⟨by omega, rfl⟩, ?_⟩, r₁, hparts, ?_⟩
    · unfold Reader.remaining
      omega
    · exact (take_iff hparts.sound).2 ⟨hlen, hraw⟩

/-- A declared count, where its items fit in the bytes that follow. -/
theorem count_iff {r' : Reader} {littleEndian : Bool} {size n : Nat} :
    r.count littleEndian size = .ok (n, r') ↔
      n < 2 ^ 32 ∧ n * size ≤ r'.remaining ∧
        Reads r r' (wordBytes littleEndian (UInt32.ofNat n)) .none := by
  unfold Reader.count
  simp only [bind_eq_ok, okOr_eq_ok, Option.filter_eq_some_iff, checkedMul_eq_some,
    decide_eq_true_eq, Except.ok.injEq, Prod.mk.injEq, Prod.exists, u32_iff hr]
  constructor
  · rintro ⟨w, r₁, hreads, bytes, ⟨⟨-, rfl⟩, hfit⟩, rfl, rfl⟩
    refine ⟨w.toNat_lt, hfit, ?_⟩
    rwa [UInt32.ofNat_toNat]
  · rintro ⟨hn, hfit, h⟩
    have hword : (UInt32.ofNat n).toNat = n := by
      rw [UInt32.toNat_ofNat']
      exact Nat.mod_eq_of_lt hn
    have hshort := h.sound.short
    refine ⟨_, r', h, n * size, ⟨⟨?_, by rw [hword]⟩, hfit⟩, hword, rfl⟩
    unfold Reader.remaining at hfit
    rw [hword]
    omega

end Steps

/-! ## Type words -/

/-- The checks on a type word, passed, and what was read off it. -/
structure Parsed (code kind : UInt32) (hasZ hasM hasSrid : Bool) : Prop where
  thousands : ¬ (code &&& 0x1fffffff) / 1000 > 3
  unflagged : ¬ ((code &&& 0x1fffffff) / 1000 > 0 ∧
    ((code &&& flagZ != 0) = true ∨ (code &&& flagM != 0) = true ∨
      (code &&& flagSrid != 0) = true))
  known : typeNames.any (·.1 == (code &&& 0x1fffffff) % 1000) = true
  kind : (code &&& 0x1fffffff) % 1000 = kind
  hasZ : (if (code &&& 0x1fffffff) / 1000 > 0 then
      (code &&& 0x1fffffff) / 1000 == 1 || (code &&& 0x1fffffff) / 1000 == 3
    else code &&& flagZ != 0) = hasZ
  hasM : (if (code &&& 0x1fffffff) / 1000 > 0 then decide ((code &&& 0x1fffffff) / 1000 ≥ 2)
    else code &&& flagM != 0) = hasM
  hasSrid : (code &&& flagSrid != 0) = hasSrid

theorem parsed_typeWord (form : Form) (kind : Kind) (hasZ hasM hasSrid : Bool)
    (h : hasSrid = true → form = .extended) :
    Parsed (typeWord form kind hasZ hasM hasSrid) kind.code hasZ hasM hasSrid := by
  cases form with
  | iso =>
    cases hasSrid with
    | true => cases h rfl
    | false =>
      cases kind <;> cases hasZ <;> cases hasM <;>
        exact ⟨by decide, by decide, by decide, by decide, by decide, by decide, by decide⟩
  | extended =>
    cases kind <;> cases hasZ <;> cases hasM <;> cases hasSrid <;>
      exact ⟨by decide, by decide, by decide, by decide, by decide, by decide, by decide⟩

theorem exists_kind {code : UInt32} (h : typeNames.any (·.1 == code) = true) :
    ∃ kind : Kind, kind.code = code := by
  simp only [typeNames, List.any_cons, List.any_nil, Bool.or_false, Bool.or_eq_true,
    beq_iff_eq] at h
  rcases h with rfl | rfl | rfl | rfl | rfl | rfl | rfl | rfl | rfl | rfl | rfl | rfl | rfl |
    rfl | rfl
  · exact ⟨.point, rfl⟩
  · exact ⟨.lineString, rfl⟩
  · exact ⟨.polygon, rfl⟩
  · exact ⟨.multiPoint, rfl⟩
  · exact ⟨.multiLineString, rfl⟩
  · exact ⟨.multiPolygon, rfl⟩
  · exact ⟨.geometryCollection, rfl⟩
  · exact ⟨.circularString, rfl⟩
  · exact ⟨.compoundCurve, rfl⟩
  · exact ⟨.curvePolygon, rfl⟩
  · exact ⟨.multiCurve, rfl⟩
  · exact ⟨.multiSurface, rfl⟩
  · exact ⟨.polyhedralSurface, rfl⟩
  · exact ⟨.tin, rfl⟩
  · exact ⟨.triangle, rfl⟩

/-- A single high bit, as a digit of the code. -/
theorem flag_eq {code flag : UInt32} {k : Nat} (hflag : flag.toNat = 2 ^ k) :
    (code &&& flag != 0) = decide (code.toNat / 2 ^ k % 2 = 1) := by
  have hbit : (code &&& flag).toNat = (code.toNat.testBit k).toNat * 2 ^ k := by
    rw [UInt32.toNat_and, hflag, Nat.and_two_pow]
  have htest : code.toNat.testBit k = decide (code.toNat / 2 ^ k % 2 = 1) :=
    Nat.testBit_eq_decide_div_mod_eq
  rw [htest] at hbit
  by_cases hd : code.toNat / 2 ^ k % 2 = 1
  · have hne : code &&& flag ≠ 0 := by
      intro hzero
      rw [hzero, decide_eq_true hd, Bool.toNat_true, Nat.one_mul] at hbit
      exact absurd hbit.symm (Nat.two_pow_pos k).ne'
    simp [hd, hne]
  · have hzero : code &&& flag = 0 := by
      apply UInt32.toNat.inj
      simpa [hd] using hbit
    simp [hd, hzero]

theorem code_le (kind : Kind) : kind.code.toNat ≤ 17 := by
  cases kind <;> decide

theorem toNat_typeWord_iso (kind : Kind) (hasZ hasM hasSrid : Bool) :
    (typeWord .iso kind hasZ hasM hasSrid).toNat =
      kind.code.toNat + 1000 * hasZ.toNat + 2000 * hasM.toNat := by
  have := code_le kind
  cases hasZ <;> cases hasM <;> simp [typeWord, UInt32.toNat_add] <;> omega

theorem toNat_typeWord_extended (kind : Kind) (hasZ hasM hasSrid : Bool) :
    (typeWord .extended kind hasZ hasM hasSrid).toNat =
      kind.code.toNat + 2 ^ 31 * hasZ.toNat + 2 ^ 30 * hasM.toNat + 2 ^ 29 * hasSrid.toNat := by
  have := code_le kind
  cases hasZ <;> cases hasM <;> cases hasSrid <;> simp [typeWord, UInt32.toNat_add] <;> omega

/-- **The type words of the language are those the checks pass.** -/
theorem exists_typeWord {code kind : UInt32} {hasZ hasM hasSrid : Bool}
    (h : Parsed code kind hasZ hasM hasSrid) :
    ∃ form known, (hasSrid = true → form = .extended) ∧ Kind.code known = kind ∧
      code = typeWord form known hasZ hasM hasSrid := by
  obtain ⟨known, hknown⟩ := exists_kind h.known
  have hkind := hknown.trans h.kind
  have hlt := code.toNat_lt
  have hbase : (code &&& 0x1fffffff).toNat = code.toNat % 2 ^ 29 := by
    rw [UInt32.toNat_and]
    exact Nat.and_two_pow_sub_one_eq_mod code.toNat 29
  have hlow := WkbAgreement.base_lt h.thousands
  have hmod : known.code.toNat = (code &&& 0x1fffffff).toNat % 1000 := by
    rw [hknown, UInt32.toNat_mod]
    rfl
  have hdiv : ((code &&& 0x1fffffff) / 1000).toNat = (code &&& 0x1fffffff).toNat / 1000 := by
    rw [UInt32.toNat_div]
    rfl
  have hunflagged := h.unflagged
  have hZ := h.hasZ
  have hM := h.hasM
  have hS := h.hasSrid
  rw [@flag_eq code flagZ 31 rfl] at hunflagged hZ
  rw [@flag_eq code flagM 30 rfl] at hunflagged hM
  rw [@flag_eq code flagSrid 29 rfl] at hunflagged hS
  simp only [decide_eq_true_eq] at hunflagged
  generalize (code &&& 0x1fffffff) / 1000 = thousands at hdiv hunflagged hZ hM
  by_cases hpos : thousands > 0
  · -- the ISO form: no high bit, and the thousands are the marks
    rw [if_pos hpos] at hZ hM
    have hplain : hasSrid = false := by
      rw [← hS]
      exact decide_eq_false fun hs => hunflagged ⟨hpos, .inr (.inr hs)⟩
    refine ⟨.iso, known, by rw [hplain]; exact fun hs => (by cases hs), hkind, ?_⟩
    have hcases : thousands = 1 ∨ thousands = 2 ∨ thousands = 3 := by
      have hpos' : 0 < thousands.toNat := hpos
      have hthree : thousands.toNat ≤ 3 := by omega
      simp only [← UInt32.toNat_inj, UInt32.reduceToNat]
      omega
    have hflags : ¬ (code.toNat / 2 ^ 31 % 2 = 1) ∧ ¬ (code.toNat / 2 ^ 30 % 2 = 1) ∧
        ¬ (code.toNat / 2 ^ 29 % 2 = 1) := by
      refine ⟨fun hs => ?_, fun hs => ?_, fun hs => ?_⟩
      · exact hunflagged ⟨hpos, .inl hs⟩
      · exact hunflagged ⟨hpos, .inr (.inl hs)⟩
      · exact hunflagged ⟨hpos, .inr (.inr hs)⟩
    apply UInt32.toNat.inj
    rw [toNat_typeWord_iso, ← hZ, ← hM]
    rcases hcases with rfl | rfl | rfl
    · have hone : (code &&& 0x1fffffff).toNat / 1000 = 1 := hdiv.symm
      show code.toNat = known.code.toNat + 1000 * 1 + 2000 * 0
      omega
    · have htwo : (code &&& 0x1fffffff).toNat / 1000 = 2 := hdiv.symm
      show code.toNat = known.code.toNat + 1000 * 0 + 2000 * 1
      omega
    · have hthree : (code &&& 0x1fffffff).toNat / 1000 = 3 := hdiv.symm
      show code.toNat = known.code.toNat + 1000 * 1 + 2000 * 1
      omega
  · -- the extended form: the high bits are the marks
    rw [if_neg hpos] at hZ hM
    have hzero : thousands.toNat = 0 := by
      by_contra hne
      exact hpos (Nat.pos_of_ne_zero hne)
    refine ⟨.extended, known, fun _ => rfl, hkind, ?_⟩
    apply UInt32.toNat.inj
    rw [toNat_typeWord_extended, ← hZ, ← hM, ← hS]
    have hbits (d : Nat) : (decide (d % 2 = 1)).toNat = d % 2 := by
      rcases Nat.mod_two_eq_zero_or_one d with hd | hd <;> simp [hd]
    rw [hbits, hbits, hbits]
    omega

/-! ## Heads, rings and coordinates -/

/-- The head as the reader reports it. -/
def header (head : Head) : Header :=
  ⟨head.kind.code, head.littleEndian, head.hasZ, head.hasM, head.srid⟩

section Pieces

variable {r : Reader} (hr : Sound r)

include hr

theorem header_iff {r' : Reader} {outer : Bool} {h : Header} :
    r.header outer = .ok (h, r') ↔
      ∃ head : Head, head.Admitted outer ∧ header head = h ∧ Reads r r' head.bytes .none := by
  constructor
  · intro hheader
    unfold Reader.header at hheader
    simp only [bind_eq_ok, failIf_eq_ok, exists_const] at hheader
    obtain ⟨⟨le, r₁⟩, horder, ⟨code, r₂⟩, hcode, hth, hiso, hkind, hheader⟩ := hheader
    have h₁ := (byteOrder_iff hr).1 horder
    have h₂ := (u32_iff h₁.sound).1 hcode
    have hparsed : Parsed code ((code &&& 0x1fffffff) % 1000) _ _ _ :=
      ⟨hth, hiso, not_not.1 hkind, rfl, rfl, rfl, rfl⟩
    dsimp only at hheader h₁ h₂
    -- from here on what the checks read off the code is all that matters
    generalize (if (code &&& 0x1fffffff) / 1000 > 0 then
      (code &&& 0x1fffffff) / 1000 == 1 || (code &&& 0x1fffffff) / 1000 == 3
      else code &&& flagZ != 0) = hasZ at hparsed hheader
    generalize (if (code &&& 0x1fffffff) / 1000 > 0 then
      decide ((code &&& 0x1fffffff) / 1000 ≥ 2) else code &&& flagM != 0) = hasM
      at hparsed hheader
    generalize (code &&& flagSrid != 0) = hasSrid at hparsed hheader
    obtain ⟨form, kind, hform, hknown, rfl⟩ := exists_typeWord hparsed
    have h₁₂ := (reads_append hr).2 ⟨r₁, h₁, h₂⟩
    cases hasSrid with
    | true =>
      rw [if_pos rfl] at hheader
      simp only [bind_eq_ok, failIf_eq_ok, exists_const, Except.ok.injEq,
        Prod.mk.injEq] at hheader
      obtain ⟨houter, ⟨srid, r₃⟩, hu, rfl, rfl⟩ := hheader
      have hall := (reads_append hr).2 ⟨r₂, h₁₂, (u32_iff h₂.sound).1 hu⟩
      refine ⟨⟨le, form, kind, hasZ, hasM, some srid⟩, ⟨fun _ => hform rfl, fun _ => ?_⟩, ?_,
        hall⟩
      · exact not_not.1 houter
      · rw [header, hknown]
    | false =>
      rw [if_neg Bool.false_ne_true] at hheader
      simp only [Except.ok.injEq, Prod.mk.injEq] at hheader
      obtain ⟨rfl, rfl⟩ := hheader
      have hall := (reads_append hr).2 ⟨r₂, h₁₂, (reads_nil h₂.sound).2 rfl⟩
      refine ⟨⟨le, form, kind, hasZ, hasM, none⟩, ⟨fun hs => ?_, fun hs => ?_⟩, ?_, hall⟩
      · cases hs
      · cases hs
      · rw [header, hknown]
  · rintro ⟨head, hadmitted, rfl, h⟩
    have hparsed := parsed_typeWord head.form head.kind head.hasZ head.hasM head.srid.isSome
      hadmitted.extended
    obtain ⟨r₂, h₁₂, h₃⟩ := (reads_append hr (a := .none) (b := .none)).1 h
    obtain ⟨r₁, h₁, h₂⟩ := (reads_append hr (a := .none) (b := .none)).1 h₁₂
    unfold Reader.header
    rw [(byteOrder_iff hr).2 h₁, ok_bind]
    dsimp only
    rw [(u32_iff h₁.sound).2 h₂, ok_bind]
    dsimp only
    unfold Head.word
    rw [failIf_neg hparsed.thousands, ok_bind, failIf_neg hparsed.unflagged, ok_bind,
      failIf_neg (not_not.2 hparsed.known), ok_bind, hparsed.hasZ, hparsed.hasM, hparsed.kind,
      hparsed.hasSrid]
    cases hsrid : head.srid with
    | none =>
      rw [hsrid] at h₃
      rw [(reads_nil h₂.sound).1 h₃]
      simp [header, hsrid]
    | some srid =>
      rw [hsrid] at h₃
      have houter := hadmitted.outer (by rw [hsrid]; rfl)
      rw [Option.isSome_some, if_pos rfl, failIf_neg (not_not.2 houter), ok_bind,
        (u32_iff h₂.sound).2 h₃, ok_bind]
      simp [header, hsrid]

/-- A count and so many positions. -/
theorem positions_iff {r' : Reader} {head : Head} {count : UInt32} {raw : List UInt8} :
    (∃ r₁, r.u32 head.littleEndian = .ok (count, r₁) ∧
        r₁.points count.toNat head.width = .ok (raw, r')) ↔
      ∃ ps, Geometry.Positions head.width ps ∧ ps.length = count.toNat ∧ ps.flatten = raw ∧
        Reads r r' (head.positions ps) (.parts ps.length) := by
  constructor
  · rintro ⟨r₁, hu, hp⟩
    have h₁ := (u32_iff hr).1 hu
    obtain ⟨hlen, h₂⟩ := (points_iff h₁.sound).1 hp
    obtain ⟨ps, hcount, hwide, rfl⟩ := exists_positions hlen
    have hword : UInt32.ofNat ps.length = count := by rw [hcount, UInt32.ofNat_toNat]
    refine ⟨ps, ⟨?_, hwide⟩, hcount, rfl, ?_⟩
    · rw [hcount]
      exact count.toNat_lt
    · have hboth := (reads_append hr).2 ⟨r₁, h₁, h₂⟩
      rw [← hcount, Account.none_plus] at hboth
      unfold Head.positions Head.count
      rwa [hword]
  · rintro ⟨ps, hps, hcount, rfl, h⟩
    have hword : UInt32.ofNat ps.length = count := by rw [hcount, UInt32.ofNat_toNat]
    unfold Head.positions Head.count at h
    rw [hword, ← Account.none_plus (.parts _)] at h
    obtain ⟨r₁, h₁, h₂⟩ := (reads_append hr).1 h
    refine ⟨r₁, (u32_iff hr).2 h₁, (points_iff h₁.sound).2 ⟨?_, ?_⟩⟩
    · rw [length_flatten_positions hps.wide, hcount]
    · rwa [← hcount]

theorem ring_iff {r' : Reader} {head : Head} :
    r.ring head.littleEndian head.width = .ok r' ↔
      ∃ ps, Geometry.Ring head.width ps ∧
        Reads r r' (head.positions ps) (.parts ps.length) := by
  unfold Reader.ring
  simp only [bind_eq_ok, failIf_eq_ok, exists_const, Except.ok.injEq, Prod.exists]
  constructor
  · rintro ⟨count, r₁, hu, raw, r₂, hp, hclosed, rfl⟩
    obtain ⟨ps, hps, hcount, rfl, hreads⟩ := (positions_iff hr).1 ⟨r₁, hu, hp⟩
    rw [not_or, not_not, UInt32.not_lt, UInt32.le_iff_toNat_le, ← hcount] at hclosed
    obtain ⟨hfour, hsame⟩ := hclosed
    have hne : ps ≠ [] := by
      rintro rfl
      exact absurd hfour (by decide)
    exact ⟨ps, ⟨hps, hfour, (closed_iff hne hps.wide).1 hsame⟩, hreads⟩
  · rintro ⟨ps, hring, hreads⟩
    have hps := hring.toPositions
    have hcount : ps.length = (UInt32.ofNat ps.length).toNat := by
      rw [UInt32.toNat_ofNat']
      exact (Nat.mod_eq_of_lt hps.counted).symm
    have hne : ps ≠ [] := by
      rintro rfl
      exact absurd hring.four (by decide)
    obtain ⟨r₁, hu, hp⟩ := (positions_iff hr).2 ⟨ps, hps, hcount, rfl, hreads⟩
    refine ⟨_, r₁, hu, _, r', hp, ?_, rfl⟩
    rw [not_or, not_not, UInt32.not_lt, UInt32.le_iff_toNat_le, ← hcount]
    exact ⟨hring.four, (closed_iff hne hps.wide).2 hring.closed⟩

end Pieces

theorem rings_iff {r r' : Reader} (hr : Sound r) {head : Head} {n : Nat} :
    Reader.rings head.littleEndian head.width n r = .ok r' ↔
      ∃ rings : List (List (List UInt8)), rings.length = n ∧ (∀ ring ∈ rings, Geometry.Ring head.width ring) ∧
        Reads r r' (rings.map head.positions).flatten (.parts (rings.map List.length).sum) := by
  induction n generalizing r with
  | zero =>
    rw [Reader.rings, Except.ok.injEq]
    constructor
    · rintro rfl
      exact ⟨[], rfl, fun ring h => (by cases h), (reads_nil hr).2 rfl⟩
    · rintro ⟨rings, hlen, -, h⟩
      rw [List.length_eq_zero_iff] at hlen
      subst hlen
      exact ((reads_nil hr).1 h).symm
  | succ n ih =>
    rw [Reader.rings, bind_eq_ok]
    constructor
    · rintro ⟨r₁, hring, hrings⟩
      obtain ⟨ring, hring, h₁⟩ := (ring_iff hr).1 hring
      obtain ⟨rings, rfl, hall, h₂⟩ := (ih h₁.sound).1 hrings
      have hboth := (reads_append hr).2 ⟨r₁, h₁, h₂⟩
      rw [Account.parts_plus_parts] at hboth
      exact ⟨ring :: rings, rfl, List.forall_mem_cons.2 ⟨hring, hall⟩, hboth⟩
    · rintro ⟨rings, hlen, hall, h⟩
      obtain ⟨ring, rings, rfl⟩ := List.exists_cons_of_length_eq_add_one hlen
      obtain ⟨hring, hall⟩ := List.forall_mem_cons.1 hall
      rw [List.map_cons, List.map_cons, List.flatten_cons, List.sum_cons,
        ← Account.parts_plus_parts] at h
      obtain ⟨r₁, h₁, h₂⟩ := (reads_append hr).1 h
      exact ⟨r₁, (ring_iff hr).2 ⟨ring, hring, h₁⟩,
        (ih h₁.sound).2 ⟨rings, Nat.succ.inj hlen, hall, h₂⟩⟩

/-! ## Bodies -/

section Bodies

variable {r r' : Reader} (hr : Sound r) {head : Head} {outer : Bool}

include hr

/-- A line is read where its number of positions passes the check of its kind. -/
theorem line_iff {c : UInt32 → Prop} [DecidablePred c] {message : String} {p : Nat → Prop}
    (hcheck : ∀ count, ¬ c count ↔ p count.toNat)
    (hline : ∀ ps, Geometry.WellFormed outer (.line head ps) ↔
      Geometry.Positions head.width ps ∧ p ps.length) :
    (do
      let (count, r) ← r.u32 head.littleEndian
      let (_, r) ← r.points count.toNat head.width
      failIf (c count) (r.malformed message)
      .ok r) = (.ok r' : Result Reader) ↔
      ∃ ps, Geometry.WellFormed outer (.line head ps) ∧
        Reads r r' (head.positions ps) (.parts ps.length) := by
  simp only [bind_eq_ok, failIf_eq_ok, exists_const, Except.ok.injEq, Prod.exists, hcheck]
  constructor
  · rintro ⟨count, r₁, hu, raw, r₂, hp, hallowed, rfl⟩
    obtain ⟨ps, hps, hcount, rfl, hreads⟩ := (positions_iff hr).1 ⟨r₁, hu, hp⟩
    exact ⟨ps, (hline ps).2 ⟨hps, hcount ▸ hallowed⟩, hreads⟩
  · rintro ⟨ps, hwell, hreads⟩
    obtain ⟨hps, hallowed⟩ := (hline ps).1 hwell
    have hcount : ps.length = (UInt32.ofNat ps.length).toNat := by
      rw [UInt32.toNat_ofNat']
      exact (Nat.mod_eq_of_lt hps.counted).symm
    obtain ⟨r₁, hu, hp⟩ := (positions_iff hr).2 ⟨ps, hps, hcount, rfl, hreads⟩
    exact ⟨_, r₁, hu, _, r', hp, hcount ▸ hallowed, rfl⟩

variable (hadmitted : head.Admitted outer)

include hadmitted

theorem area_iff (hkind : head.kind = .polygon ∨ head.kind = .triangle) :
    (do
      let (rings, r) ← r.count head.littleEndian 4
      failIf (head.kind.code = 17 ∧ rings > 1) (r.malformed "triangolo con piu di un anello")
      let r ← r.addComponents rings
      Reader.rings head.littleEndian head.width rings r) = (.ok r' : Result Reader) ↔
      ∃ rings, Geometry.WellFormed outer (.area head rings) ∧
        Reads r r' (Geometry.body (.area head rings))
          (.parts (rings.length + (rings.map List.length).sum)) := by
  have hone (n : Nat) : ¬ (head.kind.code = 17 ∧ n > 1) ↔
      head.kind = .polygon ∨ head.kind = .triangle ∧ n ≤ 1 := by
    rcases hkind with hkind | hkind
    · simp [hkind, Kind.code]
    · simp [hkind, Kind.code]
  simp only [bind_eq_ok, failIf_eq_ok, exists_const, Prod.exists]
  constructor
  · rintro ⟨n, r₁, hcount, hn, r₂, hadd, hrings⟩
    obtain ⟨hlt, -, h₁⟩ := (count_iff hr).1 hcount
    have h₂ := (addComponents_iff h₁.sound).1 hadd
    obtain ⟨rings, rfl, hall, h₃⟩ := (rings_iff h₂.sound).1 hrings
    refine ⟨rings, .area hadmitted ((hone _).1 hn) hlt hall, ?_⟩
    have hall := (reads_append hr).2 ⟨r₁, h₁, (reads_append h₁.sound).2 ⟨r₂, h₂, h₃⟩⟩
    rwa [Account.parts_plus_parts, Account.none_plus, List.nil_append] at hall
  · rintro ⟨rings, hwell, h⟩
    obtain ⟨hn, hlt, hall⟩ : (head.kind = .polygon ∨ head.kind = .triangle ∧ rings.length ≤ 1) ∧
        rings.length < 2 ^ 32 ∧ ∀ ring ∈ rings, Geometry.Ring head.width ring := by
      cases hwell with
      | area _ hn hlt hall => exact ⟨hn, hlt, hall⟩
    rw [← Account.parts_plus_parts, ← Account.none_plus (Account.plus _ _)] at h
    obtain ⟨r₁, h₁, h⟩ := (reads_append hr).1 h
    rw [← List.nil_append (List.flatten _)] at h
    obtain ⟨r₂, h₂, h₃⟩ := (reads_append h₁.sound).1 h
    refine ⟨rings.length, r₁, (count_iff hr).2 ⟨hlt, ?_, h₁⟩, (hone _).2 hn, r₂,
      (addComponents_iff h₁.sound).2 h₂, (rings_iff h₂.sound).2 ⟨rings, rfl, hall, h₃⟩⟩
    -- every ring takes at least its count
    have hfour : ∀ rings : List (List (List UInt8)),
        rings.length * 4 ≤ ((rings.map head.positions).flatten).length := by
      intro rings
      induction rings with
      | nil => exact Nat.zero_le _
      | cons ring rings ih =>
        rw [List.map_cons, List.flatten_cons, List.length_append, List.length_cons]
        unfold Head.positions Head.count
        rw [List.length_append, length_wordBytes]
        unfold Head.positions Head.count at ih
        omega
    have hlength := h₂.remaining.trans (by rw [h₃.remaining])
    have := hfour rings
    simp only [List.length_nil] at hlength
    omega

theorem coordinates_point (hkind : head.kind = .point) :
    r.coordinates (header head) = .ok r' ↔
      ∃ p, Geometry.WellFormed outer (.point head p) ∧ Reads r r' p (.parts 1) := by
  have hone : (header head).baseType = 1 := congrArg Kind.code hkind
  unfold Reader.coordinates
  simp only [if_pos hone, bind_eq_ok, Except.ok.injEq, Prod.exists, points_iff hr, Nat.one_mul]
  constructor
  · rintro ⟨raw, r₁, ⟨hlen, h⟩, rfl⟩
    exact ⟨raw, .point hadmitted hkind hlen, h⟩
  · rintro ⟨raw, hwell, h⟩
    cases hwell with
    | point _ _ hlen => exact ⟨raw, r', ⟨hlen, h⟩, rfl⟩

theorem coordinates_lineString (hkind : head.kind = .lineString) :
    r.coordinates (header head) = .ok r' ↔
      ∃ ps, Geometry.WellFormed outer (.line head ps) ∧
        Reads r r' (head.positions ps) (.parts ps.length) := by
  have htwo : (header head).baseType = 2 := congrArg Kind.code hkind
  unfold Reader.coordinates
  rw [htwo, if_neg (by decide), if_pos rfl]
  refine line_iff hr (c := fun count => count = 1) (p := fun n => n ≠ 1) (fun count => ?_) fun ps => ⟨fun h => ?_, ?_⟩
  · rw [← UInt32.toNat_inj]
    rfl
  · cases h with
    | lineString _ _ hps hne => exact ⟨hps, hne⟩
    | circularString _ hk => exact absurd (hkind.symm.trans hk) (by decide)
  · rintro ⟨hps, hne⟩
    exact .lineString hadmitted hkind hps hne

theorem coordinates_circularString (hkind : head.kind = .circularString) :
    r.coordinates (header head) = .ok r' ↔
      ∃ ps, Geometry.WellFormed outer (.line head ps) ∧
        Reads r r' (head.positions ps) (.parts ps.length) := by
  have height : (header head).baseType = 8 := congrArg Kind.code hkind
  unfold Reader.coordinates
  rw [height, if_neg (by decide), if_neg (by decide), if_pos rfl]
  refine line_iff hr (c := fun count => count ≠ 0 ∧ (count < 3 ∨ count % 2 = 0))
    (p := fun n => n = 0 ∨ 3 ≤ n ∧ n % 2 = 1) (fun count => ?_) fun ps => ⟨fun h => ?_, ?_⟩
  · rw [ne_eq, ← UInt32.toNat_inj, UInt32.lt_iff_toNat_lt, ← UInt32.toNat_inj, UInt32.toNat_mod]
    show ¬ (¬ count.toNat = 0 ∧ (count.toNat < 3 ∨ count.toNat % 2 = 0)) ↔ _
    omega
  · cases h with
    | lineString _ hk => exact absurd (hkind.symm.trans hk) (by decide)
    | circularString _ _ hps hodd => exact ⟨hps, hodd⟩
  · rintro ⟨hps, hodd⟩
    exact .circularString hadmitted hkind hps hodd

theorem coordinates_area (hkind : head.kind = .polygon ∨ head.kind = .triangle) :
    r.coordinates (header head) = .ok r' ↔
      ∃ rings, Geometry.WellFormed outer (.area head rings) ∧
        Reads r r' (Geometry.body (.area head rings))
          (.parts (rings.length + (rings.map List.length).sum)) := by
  have hcode : head.kind.code = 3 ∨ head.kind.code = 17 := hkind.imp (congrArg Kind.code)
    (congrArg Kind.code)
  rw [← area_iff hr hadmitted hkind]
  unfold Reader.coordinates
  have hothers : ¬ (header head).baseType = 1 ∧ ¬ (header head).baseType = 2 ∧
      ¬ (header head).baseType = 8 := by
    show ¬ head.kind.code = 1 ∧ ¬ head.kind.code = 2 ∧ ¬ head.kind.code = 8
    rcases hcode with hcode | hcode <;> rw [hcode] <;> decide
  rw [if_neg hothers.1, if_neg hothers.2.1, if_neg hothers.2.2]
  rfl

/-- **The body of a geometry without members.** -/
theorem coordinates_iff (hsimple : head.kind.collects = false) :
    r.coordinates (header head) = .ok r' ↔
      ∃ g : Geometry, g.WellFormed outer ∧ g.head = head ∧
        ∃ n, g.components = 1 + n ∧ Reads r r' g.body (.parts n) := by
  constructor
  · intro h
    rcases Kind.eq_of_not_collects hsimple with hk | hk | hk | hk
    · obtain ⟨p, hwell, hreads⟩ := (coordinates_point hr hadmitted hk).1 h
      exact ⟨_, hwell, rfl, 1, by rw [Geometry.components], hreads⟩
    · obtain ⟨ps, hwell, hreads⟩ := (coordinates_lineString hr hadmitted hk).1 h
      exact ⟨_, hwell, rfl, _, by rw [Geometry.components], hreads⟩
    · obtain ⟨ps, hwell, hreads⟩ := (coordinates_circularString hr hadmitted hk).1 h
      exact ⟨_, hwell, rfl, _, by rw [Geometry.components], hreads⟩
    · obtain ⟨rings, hwell, hreads⟩ := (coordinates_area hr hadmitted hk).1 h
      exact ⟨_, hwell, rfl, _, by rw [Geometry.components], hreads⟩
  · rintro ⟨g, hwell, rfl, n, hcomponents, h⟩
    have hpoint := hwell
    cases hwell with
    | point _ hk =>
      rw [Geometry.components, Nat.add_left_cancel_iff] at hcomponents
      exact (coordinates_point hr hadmitted hk).2 ⟨_, hpoint, hcomponents ▸ h⟩
    | lineString _ hk =>
      rw [Geometry.components, Nat.add_left_cancel_iff] at hcomponents
      exact (coordinates_lineString hr hadmitted hk).2 ⟨_, hpoint, hcomponents ▸ h⟩
    | circularString _ hk =>
      rw [Geometry.components, Nat.add_left_cancel_iff] at hcomponents
      exact (coordinates_circularString hr hadmitted hk).2 ⟨_, hpoint, hcomponents ▸ h⟩
    | area _ hk =>
      rw [Geometry.components, Nat.add_left_cancel_iff] at hcomponents
      exact (coordinates_area hr hadmitted (hk.imp_right And.left)).2
        ⟨_, hpoint, hcomponents ▸ h⟩
    | collection _ hcollects => exact absurd (hsimple.symm.trans hcollects) (by decide)

end Bodies

/-! ## Members -/

theorem admits_iff {container member : Kind} (h : container.collects = true) :
    ¬ ((admittedMembers container.code).any (¬ ·.contains member.code)) = true ↔
      container.admits member = true := by
  cases container <;> cases member <;> first | decide | cases h

theorem admitMember_iff {r : Reader} {container member : Head}
    (h : container.kind.collects = true) :
    r.admitMember (header container) (header member) = .ok () ↔
      Geometry.Fits container member := by
  unfold Reader.admitMember
  simp only [bind_eq_ok, failIf_eq_ok, exists_const]
  rw [show (header container).baseType = container.kind.code from rfl,
    show (header member).baseType = member.kind.code from rfl]
  constructor
  · rintro ⟨hkind, hdims⟩
    rw [ne_eq, not_not, Prod.mk.injEq] at hdims
    exact ⟨(admits_iff h).1 hkind, hdims.1, hdims.2⟩
  · rintro ⟨hkind, hZ, hM⟩
    refine ⟨(admits_iff h).2 hkind, not_not.2 ?_⟩
    show (member.hasZ, member.hasM) = (container.hasZ, container.hasM)
    rw [hZ, hM]

/-- What a geometry at `depth` adds to the account. -/
def account (depth : Nat) (g : Geometry) : Account :=
  ⟨g.components, depth + g.levels, g.anyHead Head.hasZ, g.anyHead Head.hasM⟩

def accountAll (depth : Nat) : List Geometry → Account
  | [] => .none
  | g :: gs => (account depth g).plus (accountAll depth gs)

theorem accountAll_eq (depth : Nat) (gs : List Geometry) :
    accountAll depth gs = ⟨Geometry.componentsAll gs,
      if gs = [] then 0 else depth + Geometry.levelsAll gs,
      Geometry.anyHeadAll Head.hasZ gs, Geometry.anyHeadAll Head.hasM gs⟩ := by
  induction gs with
  | nil => rfl
  | cons g gs ih =>
    rw [accountAll, ih]
    have hdepth : max (depth + g.levels) (if gs = [] then 0 else depth + Geometry.levelsAll gs) =
        depth + max g.levels (Geometry.levelsAll gs) := by
      cases gs with
      | nil => simp [Geometry.levelsAll]
      | cons g' gs => rw [if_neg (List.cons_ne_nil _ _), Nat.add_max_add_left]
    simp only [Account.plus, account, hdepth, Geometry.componentsAll, Geometry.levelsAll,
      Geometry.anyHeadAll, if_neg (List.cons_ne_nil g gs)]

theorem account_collection (depth : Nat) (head : Head) (gs : List Geometry) :
    account depth (.collection head gs) =
      (Account.mk 1 (depth + 1) head.hasZ head.hasM).plus (accountAll (depth + 1) gs) := by
  have hdepth : max (depth + 1) (if gs = [] then 0 else depth + 1 + Geometry.levelsAll gs) =
      depth + (1 + Geometry.levelsAll gs) := by
    cases gs with
    | nil => simp [Geometry.levelsAll]
    | cons g gs =>
      rw [if_neg (List.cons_ne_nil _ _)]
      omega
  simp only [accountAll_eq, Account.plus, account, Geometry.components, Geometry.levels,
    Geometry.anyHead, hdepth]

theorem account_eq {outer : Bool} {g : Geometry} (h : g.WellFormed outer)
    (hsimple : g.head.kind.collects = false) {depth n : Nat} (hn : g.components = 1 + n) :
    account depth g =
      (Account.mk 1 (depth + 1) g.head.hasZ g.head.hasM).plus (.parts n) := by
  obtain ⟨hlevels, hmark⟩ := h.simple hsimple
  simp [account, Account.plus, Account.parts, hn, hlevels, hmark]

/-- **The members of a container**, when each is read exactly where it belongs. -/
theorem members_iff {member : Reader → Result (Header × Reader)} {container : Head}
    {p : Geometry → Prop} {depth limit : Nat} (hcollects : container.kind.collects = true)
    (hmember : ∀ {r r' : Reader} {h : Header}, Sound r → r.maxDepth = limit →
      (member r = .ok (h, r') ↔
        ∃ g, p g ∧ header g.head = h ∧ Reads r r' g.bytes (account depth g)))
    {r r' : Reader} (hr : Sound r) (hlimit : r.maxDepth = limit) {n : Nat} :
    Reader.members member (header container) n r = .ok r' ↔
      ∃ gs, gs.length = n ∧ (∀ g ∈ gs, p g) ∧ (∀ g ∈ gs, Geometry.Fits container g.head) ∧
        Reads r r' (Geometry.bytesAll gs) (accountAll depth gs) := by
  induction n generalizing r with
  | zero =>
    rw [Reader.members, Except.ok.injEq]
    constructor
    · rintro rfl
      exact ⟨[], rfl, fun g h => (by cases h), fun g h => (by cases h), (reads_nil hr).2 rfl⟩
    · rintro ⟨gs, hlen, -, -, h⟩
      rw [List.length_eq_zero_iff] at hlen
      subst hlen
      exact ((reads_nil hr).1 h).symm
  | succ n ih =>
    simp only [Reader.members, bind_eq_ok, Prod.exists]
    constructor
    · rintro ⟨h, r₁, hfirst, ⟨⟩, hadmit, hrest⟩
      obtain ⟨g, hg, rfl, h₁⟩ := (hmember hr hlimit).1 hfirst
      obtain ⟨gs, rfl, hgs, hfits, h₂⟩ := (ih h₁.sound (h₁.maxDepth.trans hlimit)).1 hrest
      exact ⟨g :: gs, rfl, List.forall_mem_cons.2 ⟨hg, hgs⟩,
        List.forall_mem_cons.2 ⟨(admitMember_iff hcollects).1 hadmit, hfits⟩,
        (reads_append hr).2 ⟨r₁, h₁, h₂⟩⟩
    · rintro ⟨gs, hlen, hgs, hfits, h⟩
      obtain ⟨g, gs, rfl⟩ := List.exists_cons_of_length_eq_add_one hlen
      obtain ⟨hg, hgs⟩ := List.forall_mem_cons.1 hgs
      obtain ⟨hfit, hfits⟩ := List.forall_mem_cons.1 hfits
      obtain ⟨r₁, h₁, h₂⟩ := (reads_append hr).1 h
      exact ⟨_, r₁, (hmember hr hlimit).2 ⟨g, hg, rfl, h₁⟩, (), (admitMember_iff hcollects).2 hfit,
        (ih h₁.sound (h₁.maxDepth.trans hlimit)).2 ⟨gs, Nat.succ.inj hlen, hgs, hfits, h₂⟩⟩

/-! ## Geometries -/

/-- A change of the account alone. -/
theorem reads_account {r r' : Reader} (hr : Sound r) {a : Account} (ha : a.components = 0) :
    Reads r r' [] a ↔ r' = after r 0 a := by
  constructor
  · exact fun h => h.after
  · rintro rfl
    refine ⟨rfl, rfl, hr.within, hr.short, ?_, hr.limit⟩
    show r.components + a.components ≤ r.maxComponents
    rw [ha]
    exact hr.paid

theorem enter_iff {r r' : Reader} (hr : Sound r) {depth : Nat} {outer : Bool} {h : Header} :
    r.enter depth outer = .ok (h, r') ↔
      depth ≤ maxNesting ∧ depth < r.maxDepth ∧ ∃ head : Head, head.Admitted outer ∧
        header head = h ∧
        Reads r r' head.bytes ⟨1, depth + 1, head.hasZ, head.hasM⟩ := by
  have hobserve (r₁ : Reader) := @reads_account r r₁ hr ⟨0, depth + 1, false, false⟩ rfl
  have hobserved : after r 0 ⟨0, depth + 1, false, false⟩ =
      { r with observedDepth := max r.observedDepth (depth + 1) } := by
    simp [after]
  have haccount (head : Head) : Account.mk 1 (depth + 1) head.hasZ head.hasM =
      (Account.mk 0 (depth + 1) false false).plus
        ((Account.parts 1).plus (Account.none.plus ⟨0, 0, head.hasZ, head.hasM⟩)) := by
    simp [Account.plus, Account.parts, Account.none]
  unfold Reader.enter
  simp only [bind_eq_ok, failIf_eq_ok, exists_const, Except.ok.injEq, Prod.exists,
    Prod.mk.injEq, not_lt, not_le, gt_iff_lt, ge_iff_le]
  refine and_congr_right fun _ => and_congr_right fun _ => ?_
  have h₀ := (hobserve _).2 rfl
  rw [← hobserved]
  constructor
  · rintro ⟨r₁, hadd, h₁, r₂, hheader, rfl, rfl⟩
    have hadd := (addComponents_iff h₀.sound).1 hadd
    obtain ⟨head, hadmitted, rfl, hbytes⟩ := (header_iff hadd.sound).1 hheader
    refine ⟨head, hadmitted, rfl, ?_⟩
    have hflags := (@reads_account r₂ _ hbytes.sound ⟨0, 0, head.hasZ, head.hasM⟩ rfl).2 rfl
    rw [haccount, ← List.nil_append head.bytes, ← List.nil_append ([] ++ head.bytes),
      ← List.append_nil head.bytes]
    have hall := (reads_append hr).2 ⟨_, h₀, (reads_append h₀.sound).2 ⟨_, hadd,
      (reads_append hadd.sound).2 ⟨_, hbytes, hflags⟩⟩⟩
    simpa [after, header] using hall
  · rintro ⟨head, hadmitted, rfl, h⟩
    rw [haccount, ← List.nil_append head.bytes] at h
    obtain ⟨r₁, h₁, h⟩ := (reads_append hr).1 h
    rw [(hobserve _).1 h₁] at h
    rw [← List.nil_append head.bytes] at h
    obtain ⟨r₂, h₂, h⟩ := (reads_append h₀.sound).1 h
    rw [← List.append_nil head.bytes] at h
    obtain ⟨r₃, h₃, h₄⟩ := (reads_append h₂.sound).1 h
    refine ⟨r₂, (addComponents_iff h₀.sound).2 h₂, header head, r₃,
      (header_iff h₂.sound).2 ⟨head, hadmitted, rfl, h₃⟩, rfl, ?_⟩
    rw [h₄.after]
    simp [after, header]

theorem isContainer_header (head : Head) : (header head).isContainer = head.kind.collects := by
  obtain ⟨le, form, kind, hasZ, hasM, srid⟩ := head
  cases kind <;> rfl

/-- A tree that the reader's levels and limits hold at `depth`. -/
structure Within (levels depth limit : Nat) (g : Geometry) : Prop where
  levels : g.levels ≤ levels
  depth : depth + g.levels ≤ limit

theorem within_collection {levels depth limit : Nat} {head : Head} {gs : List Geometry} :
    Within (levels + 1) depth limit (.collection head gs) ↔
      depth < limit ∧ ∀ g ∈ gs, Within levels (depth + 1) limit g := by
  have hall (n : Nat) := @Geometry.levelsAll_le_iff gs n
  constructor
  · rintro ⟨hlevels, hdepth⟩
    rw [Geometry.levels] at hlevels hdepth
    refine ⟨by omega, fun g hg => ⟨?_, ?_⟩⟩
    · exact (hall levels).1 (by omega) g hg
    · have := (hall (limit - (depth + 1))).1 (by omega) g hg
      omega
  · rintro ⟨hdepth, hmembers⟩
    have hlevels := (hall levels).2 fun g hg => (hmembers g hg).levels
    have hlimit := (hall (limit - (depth + 1))).2 fun g hg => by
      have := (hmembers g hg).depth
      omega
    constructor <;> rw [Geometry.levels] <;> omega

/-- What follows the head of a container. -/
theorem container_iff {levels depth : Nat} {r r' : Reader} {head : Head} {outer : Bool}
    (hr : Sound r) (hadmitted : head.Admitted outer) (hcollects : head.kind.collects = true)
    (hmember : ∀ {q q' : Reader} {h : Header}, Sound q →
      (q.geometryWithin levels (depth + 1) false = .ok (h, q') ↔
        ∃ g : Geometry, (g.WellFormed false ∧ Within levels (depth + 1) q.maxDepth g) ∧
          header g.head = h ∧ Reads q q' g.bytes (account (depth + 1) g))) :
    (∃ n r₁, r.count head.littleEndian 5 = .ok (n, r₁) ∧
        Reader.members (fun r => r.geometryWithin levels (depth + 1) false) (header head) n r₁ =
          .ok r') ↔
      ∃ gs, Geometry.WellFormed outer (.collection head gs) ∧
        (∀ g ∈ gs, Within levels (depth + 1) r.maxDepth g) ∧
        Reads r r' (Geometry.body (.collection head gs)) (accountAll (depth + 1) gs) := by
  constructor
  · rintro ⟨n, r₁, hcount, hmembers⟩
    obtain ⟨hn, -, hcounted⟩ := (count_iff hr).1 hcount
    have hgs := (members_iff (p := fun g => g.WellFormed false ∧
      Within levels (depth + 1) r.maxDepth g) hcollects
      (fun hq hlim => hlim ▸ hmember hq) hcounted.sound hcounted.maxDepth).1 hmembers
    obtain ⟨gs, rfl, hgs, hfits, hall⟩ := hgs
    refine ⟨gs, .collection hadmitted hcollects hn (fun g hg => (hgs g hg).1) hfits,
      fun g hg => (hgs g hg).2, ?_⟩
    rw [← Account.none_plus (accountAll _ _)]
    exact (reads_append hr).2 ⟨r₁, hcounted, hall⟩
  · rintro ⟨gs, hwell, hwithin, h⟩
    rw [← Account.none_plus (accountAll _ _)] at h
    obtain ⟨r₁, hcounted, hall⟩ := (reads_append hr).1 h
    obtain ⟨gs', heq, hn, hgs, hfits⟩ := hwell.members hcollects
    cases heq
    refine ⟨gs.length, r₁, (count_iff hr).2 ⟨hn, ?_, hcounted⟩, ?_⟩
    · rw [hall.remaining]
      exact Nat.le_add_right_of_le (Geometry.length_bytesAll gs)
    · exact (members_iff (p := fun g => g.WellFormed false ∧
        Within levels (depth + 1) r.maxDepth g) hcollects (fun hq hlim => hlim ▸ hmember hq)
        hcounted.sound hcounted.maxDepth).2
        ⟨gs, rfl, fun g hg => ⟨hgs g hg, hwithin g hg⟩, hfits, hall⟩

/-- **One geometry.** The reader accepts a well-formed tree within its levels and limits, and
nothing else. -/
theorem geometryWithin_iff (levels : Nat) :
    ∀ {r r' : Reader} {depth : Nat} {outer : Bool} {h : Header}, Sound r →
      levels + depth ≤ maxNesting + 1 →
      (r.geometryWithin levels depth outer = .ok (h, r') ↔
        ∃ g : Geometry, (g.WellFormed outer ∧ Within levels depth r.maxDepth g) ∧
          header g.head = h ∧ Reads r r' g.bytes (account depth g)) := by
  induction levels with
  | zero =>
    intro r r' depth outer h _ _
    rw [Reader.geometryWithin]
    refine ⟨fun h => (by cases h), ?_⟩
    rintro ⟨g, ⟨-, hwithin⟩, -⟩
    exact absurd (Nat.lt_of_lt_of_le g.levels_pos hwithin.levels) (Nat.lt_irrefl 0)
  | succ levels ih =>
    intro r r' depth outer h hr hnest
    simp only [Reader.geometryWithin, bind_eq_ok, Prod.exists]
    constructor
    · rintro ⟨h₁, r₁, henter, hrun⟩
      obtain ⟨-, hdepth, head, hadmitted, rfl, hhead⟩ := (enter_iff hr).1 henter
      rw [isContainer_header] at hrun
      cases hcollects : head.kind.collects with
      | false =>
        simp only [hcollects, Bool.false_eq_true, if_false, bind_eq_ok, Except.ok.injEq,
          Prod.mk.injEq] at hrun
        obtain ⟨r₂, hcoords, rfl, rfl⟩ := hrun
        obtain ⟨g, hwell, rfl, n, hn, hbody⟩ :=
          (coordinates_iff hhead.sound hadmitted hcollects).1 hcoords
        have hlevels := (hwell.simple hcollects).1
        refine ⟨g, ⟨hwell, by omega, by omega⟩, rfl, ?_⟩
        rw [account_eq hwell hcollects hn, g.bytes_eq]
        exact (reads_append hr).2 ⟨r₁, hhead, hbody⟩
      | true =>
        simp only [hcollects, if_true, bind_eq_ok, Except.ok.injEq, Prod.exists,
          Prod.mk.injEq] at hrun
        obtain ⟨n, r₂, hcount, r₃, hmembers, rfl, rfl⟩ := hrun
        obtain ⟨gs, hwell, hwithin, hbody⟩ := (container_iff hhead.sound hadmitted hcollects
          (fun hq => ih hq (by omega))).1 ⟨n, r₂, hcount, hmembers⟩
        rw [hhead.maxDepth] at hwithin
        refine ⟨.collection head gs, ⟨hwell, within_collection.2 ⟨hdepth, hwithin⟩⟩, rfl, ?_⟩
        rw [account_collection, Geometry.bytes_eq]
        exact (reads_append hr).2 ⟨r₁, hhead, hbody⟩
    · rintro ⟨g, ⟨hwell, hwithin⟩, rfl, h⟩
      have hadmitted := hwell.admitted
      have hpos := g.levels_pos
      have hlevels := hwithin.levels
      have hdepth := hwithin.depth
      rw [g.bytes_eq] at h
      cases hcollects : g.head.kind.collects with
      | false =>
        obtain ⟨n, hn⟩ := g.exists_components
        rw [account_eq hwell hcollects hn] at h
        obtain ⟨r₁, hhead, hbody⟩ := (reads_append hr).1 h
        refine ⟨header g.head, r₁, (enter_iff hr).2 ⟨by omega, by omega, g.head, hadmitted, rfl,
          hhead⟩, ?_⟩
        have hcoords := (coordinates_iff hhead.sound hadmitted hcollects).2
          ⟨g, hwell, rfl, n, hn, hbody⟩
        rw [isContainer_header, hcollects, if_neg Bool.false_ne_true, hcoords, ok_bind]
      | true =>
        obtain ⟨gs, heq, -⟩ := hwell.members hcollects
        rw [heq] at hwithin hwell
        obtain ⟨-, hmembers⟩ := within_collection.1 hwithin
        rw [heq, account_collection] at h
        obtain ⟨r₁, hhead, hbody⟩ := (reads_append hr).1 h
        refine ⟨header g.head, r₁, (enter_iff hr).2 ⟨by omega, by omega, g.head, hadmitted, rfl,
          hhead⟩, ?_⟩
        rw [← hhead.maxDepth] at hmembers
        obtain ⟨n, r₂, hcount, hrun⟩ := (container_iff hhead.sound hadmitted hcollects
          (fun hq => ih hq (by omega))).2 ⟨gs, hwell, hmembers, hbody⟩
        rw [isContainer_header, hcollects, if_pos rfl]
        exact bind_eq_ok.2 ⟨(n, r₂), hcount, bind_eq_ok.2 ⟨r', hrun, rfl⟩⟩

/-! ## Values -/

/-- The values of the language: one well-formed geometry, at most 32 levels below its root, and
no byte after it. -/
structure Value (bytes : List UInt8) (g : Geometry) : Prop where
  wellFormed : g.WellFormed true
  nesting : g.levels ≤ maxNesting + 1
  bytes : g.bytes = bytes

/-- What a verification returns of a value. -/
def inspection (g : Geometry) : EwkbInspection :=
  { stats := { components := g.components, maxDepth := g.levels }
    root := { baseType := g.head.kind.code, hasZ := g.head.hasZ, hasM := g.head.hasM
              srid := g.head.srid }
    hasAnyZ := g.anyHead Head.hasZ
    hasAnyM := g.anyHead Head.hasM
    hasAnyEmbeddedSrid := g.head.srid.isSome
    embeddedSridCount := g.head.srid.isSome.toNat }

section Decode

variable {bytes : List UInt8} (hbytes : bytes.length < 2 ^ 64) {maxComponents : Nat}
  (hmax : maxComponents < 2 ^ 64)

include hbytes hmax

/-- **Decoding accepts the language within the limits.** -/
theorem decode_iff {maxDepth : Nat} {phase : ErrorPhase} {i : EwkbInspection} :
    decode bytes maxComponents maxDepth phase = .ok i ↔
      ∃ g, Value bytes g ∧ g.components ≤ maxComponents ∧ g.levels ≤ maxDepth ∧
        i = inspection g := by
  have hstart : Sound (Reader.start bytes maxComponents maxDepth phase) :=
    ⟨Nat.zero_le _, hbytes, Nat.zero_le _, hmax⟩
  have hrest : rest (Reader.start bytes maxComponents maxDepth phase) = bytes := rfl
  unfold decode Reader.geometry
  simp only [bind_eq_ok, failIf_eq_ok, exists_const, Except.ok.injEq, Prod.exists,
    geometryWithin_iff (maxNesting + 1 - 0) hstart
      (show maxNesting + 1 - 0 + 0 ≤ maxNesting + 1 from Nat.le_refl _)]
  constructor
  · rintro ⟨h, r, ⟨g, ⟨hwell, hwithin⟩, rfl, hreads⟩, hend, rfl⟩
    have hempty : rest r = [] := by
      rw [← List.length_eq_zero_iff]
      unfold rest
      rw [List.length_drop]
      exact not_not.1 hend
    have hbytes := hreads.rest
    rw [hrest, hempty, List.append_nil] at hbytes
    have hpaid := hreads.sound.paid
    have hdepth := hwithin.depth
    rw [hreads.after] at hpaid
    refine ⟨g, ⟨hwell, hwithin.levels, hbytes.symm⟩, ?_, ?_, ?_⟩
    · simpa [after, account, Reader.start] using hpaid
    · simpa [Reader.start] using hdepth
    · rw [hreads.after]
      simp [inspection, after, account, Reader.start, header]
  · rintro ⟨g, ⟨hwell, hnesting, rfl⟩, hcomponents, hlevels, rfl⟩
    have hreads : Reads (Reader.start g.bytes maxComponents maxDepth phase)
        (after (Reader.start g.bytes maxComponents maxDepth phase) g.bytes.length (account 0 g))
        g.bytes (account 0 g) := by
      refine ⟨?_, rfl, ?_, hbytes, ?_, hmax⟩
      · simp [rest, after, Reader.start]
      · simp [after, Reader.start]
      · simpa [after, account, Reader.start] using hcomponents
    refine ⟨_, _, ⟨g, ⟨hwell, hnesting, by simpa [Reader.start] using hlevels⟩, rfl, hreads⟩,
      ?_, ?_⟩
    · simp [Reader.remaining, after, Reader.start]
    · simp [inspection, after, account, Reader.start, header]

end Decode

/-! ## A value and its field -/

def dimensionsName (head : Head) : String :=
  match head.hasZ, head.hasM with
  | false, false => "xy"
  | true, false => "xyz"
  | false, true => "xym"
  | true, true => "xyzm"

/-- What the field of a value declares agrees with the value: an SRID is embedded under `ewkb`
only, where it is the declared one, or on a legacy field, which may declare none. -/
structure Agrees (contract : ValueContract) (head : Head) : Prop where
  srid : ∀ srid, head.srid = some srid →
    contract.ewkb = some true ∧ contract.srid = some srid ∨
      contract.ewkb = none ∧ (contract.srid = none ∨ contract.srid = some srid)
  type : ∀ types, contract.types = some types →
    ∃ item ∈ types.splitOn ",", item.toLower = "unknown" ∨ item.toLower = head.kind.name
  dimensions : ∀ declared, contract.dimensions = some declared →
    declared = "unknown" ∨ declared = dimensionsName head

theorem verifySrid_iff {contract : ValueContract} {srid : UInt32} {phase : ErrorPhase} :
    verifySrid contract srid phase = .ok () ↔
      contract.ewkb = some true ∧ contract.srid = some srid ∨
        contract.ewkb = none ∧ (contract.srid = none ∨ contract.srid = some srid) := by
  unfold verifySrid
  simp only [bind_eq_ok, failIf_eq_ok, exists_const]
  obtain ⟨ewkb, declared, -, -⟩ := contract
  cases ewkb with
  | none => cases declared <;> simp
  | some ewkb => cases ewkb <;> simp

theorem find_typeName (kind : Kind) :
    (typeNames.find? (·.1 == kind.code)).map (·.2) = some kind.name := by
  cases kind <;> rfl

theorem dimensionsLabel_inspection (g : Geometry) :
    dimensionsLabel (inspection g).root = dimensionsName g.head := by
  unfold dimensionsLabel dimensionsName inspection
  cases g.head.hasZ <;> cases g.head.hasM <;> rfl

theorem verifyValue_eq_ok {contract : ValueContract} {bytes : List UInt8}
    {maxComponents maxDepth : Nat} {phase : ErrorPhase} {i : EwkbInspection} {g : Geometry}
    (h : decode bytes maxComponents maxDepth phase = .ok (inspection g)) :
    verifyValue contract bytes maxComponents maxDepth phase = .ok i ↔
      Agrees contract g.head ∧ i = inspection g := by
  have htype : (¬ (contract.types.any fun types => ¬ (types.splitOn ",").any fun item =>
      item.toLower == "unknown" || item.toLower == g.head.kind.name) = true) ↔
      ∀ types, contract.types = some types →
        ∃ item ∈ types.splitOn ",", item.toLower = "unknown" ∨
          item.toLower = g.head.kind.name := by
    cases contract.types with
    | none => simp
    | some types => simp [or_iff_not_imp_left]
  have hdimensions : (¬ (contract.dimensions.any fun declared =>
      declared != "unknown" && declared != dimensionsName g.head) = true) ↔
      ∀ declared, contract.dimensions = some declared →
        declared = "unknown" ∨ declared = dimensionsName g.head := by
    cases contract.dimensions with
    | none => simp
    | some declared => simp [or_iff_not_imp_left]
  have hroot : (inspection g).root.srid = g.head.srid := rfl
  have hname : (typeNames.find? (·.1 == (inspection g).root.baseType)).map (·.2) =
      some g.head.kind.name := find_typeName g.head.kind
  have hagrees : Agrees contract g.head ↔ (∀ srid, g.head.srid = some srid →
      verifySrid contract srid phase = .ok ()) ∧ _ ∧ _ :=
    ⟨fun h => ⟨fun srid hs => verifySrid_iff.2 (h.srid srid hs), htype.2 h.type,
      hdimensions.2 h.dimensions⟩,
    fun h => ⟨fun srid hs => verifySrid_iff.1 (h.1 srid hs), htype.1 h.2.1, hdimensions.1 h.2.2⟩⟩
  unfold verifyValue
  rw [h, ok_bind, hroot, hagrees]
  cases g.head.srid with
  | none =>
    simp only [hname, dimensionsLabel_inspection, bind_eq_ok, failIf_eq_ok, exists_const,
      okOr_eq_ok, Except.ok.injEq, Option.some.injEq, exists_eq_left', reduceCtorEq,
      false_implies, implies_true, true_and, and_assoc, @eq_comm _ i]
  | some srid =>
    simp only [hname, dimensionsLabel_inspection, bind_eq_ok, failIf_eq_ok, exists_const,
      okOr_eq_ok, Except.ok.injEq, Option.some.injEq, exists_eq_left', forall_eq', and_assoc,
      @eq_comm _ i]
    refine ⟨fun hs => ?_, fun hs => ⟨(), hs⟩⟩
    obtain ⟨_, hs⟩ := hs
    exact hs

/-- **Verification accepts the documented language.** A value is accepted exactly when its bytes
are one geometry of the grammar that agrees with its field and keeps the limits; on any other
bytes the answer is an error. -/
theorem verifyValue_iff (contract : ValueContract) (bytes : List UInt8)
    (hbytes : bytes.length < 2 ^ 64) (maxComponents : Nat) (hmax : maxComponents < 2 ^ 64)
    (maxDepth : Nat) (phase : ErrorPhase) :
    (∀ i, verifyValue contract bytes maxComponents maxDepth phase = .ok i ↔
      ∃ g, Value bytes g ∧ Agrees contract g.head ∧ g.components ≤ maxComponents ∧
        g.levels ≤ maxDepth ∧ i = inspection g) ∧
      ((¬ ∃ g, Value bytes g ∧ Agrees contract g.head ∧ g.components ≤ maxComponents ∧
          g.levels ≤ maxDepth) →
        ∃ e, verifyValue contract bytes maxComponents maxDepth phase = .error e) := by
  have haccepts : ∀ i, verifyValue contract bytes maxComponents maxDepth phase = .ok i ↔
      ∃ g, Value bytes g ∧ Agrees contract g.head ∧ g.components ≤ maxComponents ∧
        g.levels ≤ maxDepth ∧ i = inspection g := by
    intro i
    constructor
    · intro h
      obtain ⟨j, hdecode⟩ : ∃ j, decode bytes maxComponents maxDepth phase = .ok j := by
        unfold verifyValue at h
        obtain ⟨j, hj, -⟩ := bind_eq_ok.1 h
        exact ⟨j, hj⟩
      obtain ⟨g, hvalue, hcomponents, hlevels, rfl⟩ := (decode_iff hbytes hmax).1 hdecode
      obtain ⟨hagrees, rfl⟩ := (verifyValue_eq_ok hdecode).1 h
      exact ⟨g, hvalue, hagrees, hcomponents, hlevels, rfl⟩
    · rintro ⟨g, hvalue, hagrees, hcomponents, hlevels, rfl⟩
      exact (verifyValue_eq_ok
        ((decode_iff hbytes hmax).2 ⟨g, hvalue, hcomponents, hlevels, rfl⟩)).2 ⟨hagrees, rfl⟩
  refine ⟨haccepts, fun hnone => ?_⟩
  cases hverify : verifyValue contract bytes maxComponents maxDepth phase with
  | error e => exact ⟨e, rfl⟩
  | ok i =>
    obtain ⟨g, hvalue, hagrees, hcomponents, hlevels, -⟩ := (haccepts i).1 hverify
    exact absurd ⟨g, hvalue, hagrees, hcomponents, hlevels⟩ hnone

/-- A big-endian collection: two little-endian points in a multipoint, and a line. -/
def collectionBytes : List UInt8 :=
  [0, 0, 0, 0, 7, 0, 0, 0, 2] ++
    ([1, 4, 0, 0, 0, 2, 0, 0, 0] ++ ([1, 1, 0, 0, 0] ++ List.replicate 16 0) ++
      ([1, 1, 0, 0, 0] ++ List.replicate 16 0)) ++
    ([0, 0, 0, 0, 2, 0, 0, 0, 2] ++ List.replicate 32 0)

theorem collectionBytes_value :
    ∃ g, Value collectionBytes g ∧ Agrees ⟨some false, none, none, some "xy"⟩ g.head ∧
      g.components ≤ 9 ∧ g.levels ≤ 3 :=
  have hverify : verifyValue ⟨some false, none, none, some "xy"⟩ collectionBytes 9 3 .read =
      .ok { stats := { components := 9, maxDepth := 3 }
            root := { baseType := 7, hasZ := false, hasM := false, srid := none }
            hasAnyZ := false, hasAnyM := false
            hasAnyEmbeddedSrid := false, embeddedSridCount := 0 } := by decide +kernel
  have ⟨g, hvalue, hagrees, hcomponents, hlevels, _⟩ :=
    ((verifyValue_iff ⟨some false, none, none, some "xy"⟩ collectionBytes (by decide) 9
      (by decide) 3 .read).1 _).1 hverify
  ⟨g, hvalue, hagrees, hcomponents, hlevels⟩

end Plenora.Core.WkbLanguage
