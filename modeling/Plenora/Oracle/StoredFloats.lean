import Plenora.Oracle.DecimalTexts
import Plenora.Lib.WkbGrammar

/-!
# Dumps of stored floating-point numbers

The server stores a binary number so that its bytes sort as the numbers do: a positive number with
its sign bit set, a negative one with all its bits inverted.  `DUMP()` lists the bytes.

    ieeeBytes (storedBytes raw) = raw                                    (ieeeBytes_storedBytes)
    binaryDoubleFromDump (doubleDump bits) = .ok (some bits) ↔ bits is a number, not -0
                                                                         (binaryDouble_iff)
-/

namespace Plenora.Oracle.NumericReads

open Plenora.Lib Plenora.Lib.Decimal Plenora.Core
open Plenora.Lib.Patterns (stripPrefix stripPrefix_iff)

/-! ## The server's side -/

/-- `to_be_bytes` -/
def toBeBytes (length n : Nat) : List UInt8 := (leBytes length n).reverse

/-- How the server stores the bytes of a number. -/
def storedBytes : List UInt8 → List UInt8
  | [] => []
  | first :: rest =>
    if first &&& 0x80 = 0 then (first ^^^ 0x80) :: rest else (first :: rest).map (~~~ ·)

/-- What `DUMP()` gives for stored bytes. -/
def dumpText (typeCode : Nat) (stored : List UInt8) : List Char :=
  dumpHead typeCode stored.length ++ [','].intercalate (stored.map fun b => decimalText b.toNat)

/-- The dump of a stored BINARY_DOUBLE. -/
def doubleDump (bits : UInt64) : List Char := dumpText 101 (storedBytes (toBeBytes 8 bits.toNat))

/-- The dump of a stored BINARY_FLOAT. -/
def floatDump (bits : UInt32) : List Char := dumpText 100 (storedBytes (toBeBytes 4 bits.toNat))

/-! ## Bytes -/

theorem signBit_all : ∀ n, n < 256 →
    (UInt8.ofNat n &&& 0x80 = 0 → (UInt8.ofNat n ^^^ 0x80) &&& 0x80 ≠ 0) ∧
    (UInt8.ofNat n &&& 0x80 ≠ 0 → (UInt8.ofNat n ^^^ 0x80) &&& 0x80 = 0) ∧
    (UInt8.ofNat n &&& 0x80 ≠ 0 → ~~~(UInt8.ofNat n) &&& 0x80 = 0) ∧
    (UInt8.ofNat n &&& 0x80 = 0 → ~~~(UInt8.ofNat n) &&& 0x80 ≠ 0) ∧
    (UInt8.ofNat n ^^^ 0x80) ^^^ 0x80 = UInt8.ofNat n := by
  decide +kernel

theorem signBit (b : UInt8) :
    (b &&& 0x80 = 0 → (b ^^^ 0x80) &&& 0x80 ≠ 0) ∧ (b &&& 0x80 ≠ 0 → (b ^^^ 0x80) &&& 0x80 = 0) ∧
    (b &&& 0x80 ≠ 0 → ~~~b &&& 0x80 = 0) ∧ (b &&& 0x80 = 0 → ~~~b &&& 0x80 ≠ 0) ∧
    (b ^^^ 0x80) ^^^ 0x80 = b := by
  have h := signBit_all b.toNat b.toNat_lt
  rwa [UInt8.ofNat_toNat] at h

theorem map_not_not (raw : List UInt8) : (raw.map (~~~ ·)).map (~~~ ·) = raw := by
  rw [List.map_map]
  conv => rhs; rw [← List.map_id raw]
  refine List.map_congr_left fun b _ => ?_
  show ~~~(~~~b) = b
  exact UInt8.not_not

/-- **The client undoes what the server did.** -/
theorem ieeeBytes_storedBytes (raw : List UInt8) : ieeeBytes (storedBytes raw) = raw := by
  cases raw with
  | nil => rfl
  | cons first rest =>
    obtain ⟨hset, -, hnot, -, hback⟩ := signBit first
    rw [storedBytes]
    split
    next h => rw [ieeeBytes, if_neg (hset h), hback]
    next h =>
      rw [List.map_cons, ieeeBytes, if_pos (hnot h), ← List.map_cons]
      exact map_not_not (first :: rest)

theorem storedBytes_ieeeBytes (stored : List UInt8) : storedBytes (ieeeBytes stored) = stored := by
  cases stored with
  | nil => rfl
  | cons first rest =>
    obtain ⟨-, hclear, -, hnot, hback⟩ := signBit first
    rw [ieeeBytes]
    split
    next h =>
      rw [List.map_cons, storedBytes, if_neg (hnot h), ← List.map_cons]
      exact map_not_not (first :: rest)
    next h => rw [storedBytes, if_pos (hclear h), hback]

@[simp] theorem length_storedBytes (raw : List UInt8) : (storedBytes raw).length = raw.length := by
  cases raw with
  | nil => rfl
  | cons first rest =>
    rw [storedBytes]
    split <;> simp

@[simp] theorem length_ieeeBytes (stored : List UInt8) :
    (ieeeBytes stored).length = stored.length := by
  have := length_storedBytes (ieeeBytes stored)
  rw [storedBytes_ieeeBytes] at this
  exact this.symm

@[simp] theorem length_toBeBytes (length n : Nat) : (toBeBytes length n).length = length := by
  simp [toBeBytes]

theorem fromBeBytes_toBeBytes {length n : Nat} (h : n < 256 ^ length) :
    fromBeBytes (toBeBytes length n) = n := by
  unfold fromBeBytes toBeBytes
  rw [List.reverse_reverse, natOfLe_leBytes, Nat.mod_eq_of_lt h]

theorem toBeBytes_fromBeBytes (bytes : List UInt8) :
    toBeBytes bytes.length (fromBeBytes bytes) = bytes := by
  have h := WkbGrammar.leBytes_natOfLe bytes.reverse
  rw [List.length_reverse] at h
  unfold toBeBytes fromBeBytes
  rw [h, List.reverse_reverse]

/-! ## Dumps -/

theorem parseByte_all : ∀ n, n < 256 → parseByte (decimalText n) = some (UInt8.ofNat n) := by
  decide +kernel

theorem parseByte_decimalText (b : UInt8) : parseByte (decimalText b.toNat) = some b := by
  have h := parseByte_all b.toNat b.toNat_lt
  rwa [UInt8.ofNat_toNat] at h

theorem comma_not_mem (n : Nat) : ',' ∉ decimalText n := fun h =>
  absurd (allDigits_toDigits n ',' h) (by decide)

/-- **The bytes of a dump are read back.** -/
theorem oracleBinaryFloat_dumpText (typeCode : Nat) {stored : List UInt8} (hne : stored ≠ []) :
    oracleBinaryFloat (dumpText typeCode stored) typeCode stored.length =
      .ok (some (ieeeBytes stored)) := by
  have hhead : dumpText typeCode stored ≠ "NULL".toList := by
    intro h
    have : (dumpText typeCode stored).head? = some 'N' := by rw [h]; rfl
    have hT : (dumpText typeCode stored).head? = some 'T' := rfl
    rw [hT] at this
    cases this
  have hbody : stripPrefix (dumpHead typeCode stored.length) (dumpText typeCode stored) =
      some ([','].intercalate (stored.map fun b => decimalText b.toNat)) := stripPrefix_iff.2 rfl
  have hsplit : ([','].intercalate (stored.map fun b => decimalText b.toNat)).splitOn ',' =
      stored.map fun b => decimalText b.toNat := by
    refine List.splitOn_intercalate ',' (fun piece hpiece => ?_) (by simpa using hne)
    obtain ⟨b, -, rfl⟩ := List.mem_map.1 hpiece
    exact comma_not_mem _
  have hbytes (error : DatabaseError) :
      (stored.map fun b => decimalText b.toNat).mapM (fun byte => okOr (parseByte byte) error) =
        .ok stored := by
    clear hne hhead hbody hsplit
    induction stored with
    | nil => rfl
    | cons b stored ih =>
      rw [List.map_cons, List.mapM_cons, parseByte_decimalText, ih]
      rfl
  unfold oracleBinaryFloat
  rw [if_neg hhead, hbody, okOr_some, ok_bind, hsplit, hbytes, ok_bind, failIf_neg (by simp)]
  rfl

/-- Which doubles a BINARY_DOUBLE column is read as. -/
def isReadable (bits : UInt64) : Bool := Ieee.isFinite bits && !isNegativeZero bits

def isReadable32 (bits : UInt32) : Bool := isFinite32 bits && !isNegativeZero32 bits

theorem not_isReadable (finite negativeZero : Bool) :
    (!finite || negativeZero) = true ↔ (finite && !negativeZero) = false := by
  cases finite <;> cases negativeZero <;> decide

/-- **A dump decodes to the number that was stored, unless it is not finite or negative zero.** -/
theorem binaryDouble_dump (bits : UInt64) :
    binaryDoubleFromDump (doubleDump bits) =
      if isReadable bits then .ok (some bits)
      else .error (mapping "BINARY_DOUBLE Oracle non rappresentabile") := by
  have hlength : (storedBytes (toBeBytes 8 bits.toNat)).length = 8 := by simp
  have hread := oracleBinaryFloat_dumpText 101 (List.ne_nil_of_length_eq_add_one hlength)
  have hback : UInt64.ofNat (fromBeBytes (toBeBytes 8 bits.toNat)) = bits := by
    rw [fromBeBytes_toBeBytes bits.toNat_lt, UInt64.ofNat_toNat]
  rw [hlength, ieeeBytes_storedBytes] at hread
  unfold binaryDoubleFromDump
  show (oracleBinaryFloat (dumpText 101 _) 101 8 >>= _) = _
  rw [hread, ok_bind]
  show (failIf ((!Ieee.isFinite (UInt64.ofNat _) || _) = true) _ >>= fun _ => _) = _
  rw [hback]
  unfold failIf isReadable
  simp only [not_isReadable]
  cases Ieee.isFinite bits && !isNegativeZero bits <;> rfl

theorem binaryFloat_dump (bits : UInt32) :
    binaryFloatFromDump (floatDump bits) =
      if isReadable32 bits then .ok (some bits)
      else .error (mapping "BINARY_FLOAT Oracle non rappresentabile") := by
  have hlength : (storedBytes (toBeBytes 4 bits.toNat)).length = 4 := by simp
  have hread := oracleBinaryFloat_dumpText 100 (List.ne_nil_of_length_eq_add_one hlength)
  have hback : UInt32.ofNat (fromBeBytes (toBeBytes 4 bits.toNat)) = bits := by
    rw [fromBeBytes_toBeBytes bits.toNat_lt, UInt32.ofNat_toNat]
  rw [hlength, ieeeBytes_storedBytes] at hread
  unfold binaryFloatFromDump
  show (oracleBinaryFloat (dumpText 100 _) 100 4 >>= _) = _
  rw [hread, ok_bind]
  show (failIf ((!isFinite32 (UInt32.ofNat _) || _) = true) _ >>= fun _ => _) = _
  rw [hback]
  unfold failIf isReadable32
  simp only [not_isReadable]
  cases isFinite32 bits && !isNegativeZero32 bits <;> rfl

/-- Whatever eight bytes are stored, they are those of some double. -/
theorem exists_double {stored : List UInt8} (h : stored.length = 8) :
    ∃ bits : UInt64, stored = storedBytes (toBeBytes 8 bits.toNat) := by
  have hlt : fromBeBytes (ieeeBytes stored) < 256 ^ 8 := by
    have := WkbGrammar.natOfLe_lt (ieeeBytes stored).reverse
    rwa [List.length_reverse, length_ieeeBytes, h] at this
  have hback := toBeBytes_fromBeBytes (ieeeBytes stored)
  rw [length_ieeeBytes, h] at hback
  refine ⟨UInt64.ofNat (fromBeBytes (ieeeBytes stored)), ?_⟩
  rw [UInt64.toNat_ofNat_of_lt' hlt, hback, storedBytes_ieeeBytes]

theorem exists_float {stored : List UInt8} (h : stored.length = 4) :
    ∃ bits : UInt32, stored = storedBytes (toBeBytes 4 bits.toNat) := by
  have hlt : fromBeBytes (ieeeBytes stored) < 256 ^ 4 := by
    have := WkbGrammar.natOfLe_lt (ieeeBytes stored).reverse
    rwa [List.length_reverse, length_ieeeBytes, h] at this
  have hback := toBeBytes_fromBeBytes (ieeeBytes stored)
  rw [length_ieeeBytes, h] at hback
  refine ⟨UInt32.ofNat (fromBeBytes (ieeeBytes stored)), ?_⟩
  rw [UInt32.toNat_ofNat_of_lt' hlt, hback, storedBytes_ieeeBytes]

theorem readable_of_dump {bits bits' : UInt64}
    (h : binaryDoubleFromDump (doubleDump bits) = .ok (some bits')) :
    isNegativeZero bits = false ∧ bits' = bits := by
  rw [binaryDouble_dump] at h
  split at h
  next hread =>
    unfold isReadable at hread
    rw [Bool.and_eq_true, Bool.not_eq_true'] at hread
    exact ⟨hread.2, (Option.some.inj (Except.ok.inj h)).symm⟩
  next => cases h

theorem readable32_of_dump {bits bits' : UInt32}
    (h : binaryFloatFromDump (floatDump bits) = .ok (some bits')) :
    isNegativeZero32 bits = false ∧ bits' = bits := by
  rw [binaryFloat_dump] at h
  split at h
  next hread =>
    unfold isReadable32 at hread
    rw [Bool.and_eq_true, Bool.not_eq_true'] at hread
    exact ⟨hread.2, (Option.some.inj (Except.ok.inj h)).symm⟩
  next => cases h

/-! ## Numbers -/

theorem isNegativeZero_iff (bits : UInt64) :
    isNegativeZero bits ↔ Ieee.pattern bits = 0 ∧ Ieee.negative bits := by
  unfold isNegativeZero Ieee.isZero Ieee.pattern
  rw [Bool.and_eq_true, decide_eq_true_eq]

/-- The sign of a double that is not negative zero is that of its number. -/
theorem negative_iff_toRat {bits : UInt64} (h : isNegativeZero bits = false) :
    Ieee.negative bits ↔ Ieee.toRat bits < 0 := by
  have hmono := Ieee.Format.magnitude_strictMono Ieee.binary64
  unfold Ieee.toRat
  cases hneg : Ieee.negative bits with
  | false => simpa using div_nonneg (Nat.cast_nonneg _) (by positivity)
  | true =>
    have hpattern : 0 < Ieee.pattern bits := by
      by_contra hzero
      have := (isNegativeZero_iff bits).2 ⟨by omega, hneg⟩
      rw [h] at this
      cases this
    have hpos : 0 < Ieee.binary64.magnitude (Ieee.pattern bits) :=
      Nat.lt_of_le_of_lt (Nat.zero_le _) (hmono hpattern)
    have : (0 : Rat) < Ieee.binary64.magnitude (Ieee.pattern bits) / 2 ^ 1074 := by positivity
    simpa using this

/-- **Without negative zero, a double is determined by its number.** -/
theorem toRat_inj {a b : UInt64} (ha : isNegativeZero a = false) (hb : isNegativeZero b = false)
    (h : Ieee.toRat a = Ieee.toRat b) : a = b := by
  have hsign : Ieee.negative a = Ieee.negative b := by
    rw [Bool.eq_iff_iff, negative_iff_toRat ha, negative_iff_toRat hb, h]
  refine Ieee.eq_of_pattern_eq hsign ?_
  unfold Ieee.toRat at h
  rw [hsign] at h
  have hne : (if Ieee.negative b = true then (-1 : Rat) else 1) ≠ 0 := by split <;> norm_num
  have hmagnitude := (div_left_inj' (by positivity)).1 (mul_left_cancel₀ hne h)
  exact (Ieee.Format.magnitude_strictMono Ieee.binary64).injective (mod_cast hmagnitude)

theorem isFinite32_iff (bits : UInt32) : isFinite32 bits ↔ Ieee.isFinite (Ieee.widen bits) := by
  constructor
  · intro h
    refine (Ieee.widen_spec ?_).2.1
    have hinf : Ieee.binary32.infinity = 255 * 2 ^ 23 := by decide
    have hlt : bits.toNat < 2 ^ 32 := bits.toNat_lt
    unfold isFinite32 at h
    rw [decide_eq_true_eq] at h
    unfold Ieee.pattern32
    rw [hinf]
    omega
  · intro h
    have := Ieee.pattern32_lt_of_isFinite h
    have hinf : Ieee.binary32.infinity = 255 * 2 ^ 23 := by decide
    unfold Ieee.pattern32 at this
    rw [hinf] at this
    unfold isFinite32
    rw [decide_eq_true_eq]
    omega

theorem isNegativeZero_widen (bits : UInt32) :
    isNegativeZero (Ieee.widen bits) = isNegativeZero32 bits := by
  unfold isNegativeZero isNegativeZero32 Ieee.negative
  rw [Ieee.isZero_widen, (Ieee.widen_fields bits).2.2]

theorem isReadable32_eq (bits : UInt32) : isReadable32 bits = isReadable (Ieee.widen bits) := by
  unfold isReadable32 isReadable
  rw [isNegativeZero_widen, Bool.eq_iff_iff, Bool.and_eq_true, Bool.and_eq_true, isFinite32_iff]

/-- **Distinct stored bytes that are read are distinct numbers.** -/
theorem double_of_dump_inj {stored stored' : List UInt8} {bits bits' : UInt64}
    (hlen : stored.length = 8) (hlen' : stored'.length = 8)
    (h : binaryDoubleFromDump (dumpText 101 stored) = .ok (some bits))
    (h' : binaryDoubleFromDump (dumpText 101 stored') = .ok (some bits'))
    (hvalue : Ieee.toRat bits = Ieee.toRat bits') : stored = stored' := by
  obtain ⟨b, rfl⟩ := exists_double hlen
  obtain ⟨b', rfl⟩ := exists_double hlen'
  obtain ⟨hb, rfl⟩ := readable_of_dump h
  obtain ⟨hb', rfl⟩ := readable_of_dump h'
  rw [toRat_inj hb hb' hvalue]

theorem float_of_dump_inj {stored stored' : List UInt8} {bits bits' : UInt32}
    (hlen : stored.length = 4) (hlen' : stored'.length = 4)
    (h : binaryFloatFromDump (dumpText 100 stored) = .ok (some bits))
    (h' : binaryFloatFromDump (dumpText 100 stored') = .ok (some bits'))
    (hvalue : Ieee.toRat (Ieee.widen bits) = Ieee.toRat (Ieee.widen bits')) :
    stored = stored' := by
  obtain ⟨b, rfl⟩ := exists_float hlen
  obtain ⟨b', rfl⟩ := exists_float hlen'
  obtain ⟨hb, rfl⟩ := readable32_of_dump h
  obtain ⟨hb', rfl⟩ := readable32_of_dump h'
  rw [← isNegativeZero_widen] at hb hb'
  rw [Ieee.widen_inj.1 (toRat_inj hb hb' hvalue)]

end Plenora.Oracle.NumericReads
