import Mathlib

/-!
# Positions in a UTF-8 text

A text is the bytes of its characters.  A slice of it may begin and end only between two
characters; after a byte of ASCII it always may.

    (utf8 text)[i]? = some b → b < 0x80 → IsBoundary (utf8 text) (i + 1)    (isBoundary_succ)
-/

namespace Plenora.Lib.Utf8

def utf8 (text : List Char) : List UInt8 := text.flatMap String.utf8EncodeChar

def isContinuation (b : UInt8) : Bool := 0x80 ≤ b && b < 0xC0

/-- `str::is_char_boundary`. -/
def IsBoundary (bytes : List UInt8) (i : Nat) : Prop :=
  i = bytes.length ∨ ∃ b, bytes[i]? = some b ∧ isContinuation b = false

instance (bytes : List UInt8) (i : Nat) : Decidable (IsBoundary bytes i) :=
  match h : bytes[i]? with
  | none =>
    decidable_of_iff (i = bytes.length)
      ⟨.inl, fun hb => hb.elim id fun ⟨b, hget, _⟩ => by rw [h] at hget; cases hget⟩
  | some b =>
    decidable_of_iff (isContinuation b = false)
      ⟨fun hb => .inr ⟨b, h, hb⟩, fun hb => hb.elim
        (fun hi => by rw [hi, List.getElem?_eq_none (Nat.le_refl _)] at h; cases h)
        fun ⟨b', hget, hb'⟩ => by rw [h] at hget; cases hget; exact hb'⟩

/-- The bytes from `start` to `stop`, if both are boundaries. -/
def slice (bytes : List UInt8) (start stop : Nat) : Option (List UInt8) :=
  if start ≤ stop ∧ IsBoundary bytes start ∧ IsBoundary bytes stop then
    some ((bytes.drop start).take (stop - start))
  else none

/-! ## Bytes of ASCII -/

def ascii (c : Char) : UInt8 := c.toUInt8

def asciiText (text : String) : List UInt8 := text.toList.map ascii

/-- `u8::is_ascii_whitespace`. -/
def isAsciiWhitespace (b : UInt8) : Bool := b = 9 || b = 10 || b = 12 || b = 13 || b = 32

/-- `u8::is_ascii_control`. -/
def isAsciiControl (b : UInt8) : Bool := b < 32 || b = 127

def isAsciiAlphabetic (b : UInt8) : Bool := (65 ≤ b && b ≤ 90) || (97 ≤ b && b ≤ 122)

def isAsciiDigit (b : UInt8) : Bool := 48 ≤ b && b ≤ 57

def isAsciiAlphanumeric (b : UInt8) : Bool := isAsciiAlphabetic b || isAsciiDigit b

/-! ## Bytes of one character -/

theorem le_ofNat {k n : Nat} (hk : k < 256) (hn : n < 256) :
    UInt8.ofNat k ≤ UInt8.ofNat n ↔ k ≤ n := by
  rw [UInt8.le_iff_toNat_le, UInt8.toNat_ofNat', UInt8.toNat_ofNat', Nat.mod_eq_of_lt hk,
    Nat.mod_eq_of_lt hn]

/-- One byte of ASCII, or a first byte and the bytes that continue it. -/
theorem encode_cases (c : Char) :
    (∃ b, String.utf8EncodeChar c = [b] ∧ b < 0x80) ∨
      ∃ b rest, String.utf8EncodeChar c = b :: rest ∧ 0xC0 ≤ b ∧ ∀ b ∈ rest, 0x80 ≤ b := by
  have hfirst {n : Nat} (h : 0xC0 ≤ n) (hn : n < 256) : (0xC0 : UInt8) ≤ UInt8.ofNat n :=
    (le_ofNat (by decide) hn).2 h
  have hmore {n : Nat} (h : 0x80 ≤ n) (hn : n < 256) : (0x80 : UInt8) ≤ UInt8.ofNat n :=
    (le_ofNat (by decide) hn).2 h
  unfold String.utf8EncodeChar
  dsimp only
  have hmax : c.val.toNat < 0x110000 := by
    rcases c.valid with h | h <;> omega
  generalize c.val.toNat = v at hmax
  split
  next h =>
    refine .inl ⟨_, rfl, ?_⟩
    rw [← UInt8.not_le]
    exact fun hle => absurd ((le_ofNat (k := 0x80) (by decide) (by omega)).1 hle) (by omega)
  next h =>
  split
  next h =>
    refine .inr ⟨_, _, rfl, hfirst (by omega) (by omega), ?_⟩
    exact List.forall_mem_singleton.2 (hmore (by omega) (by omega))
  next h =>
  split
  next h =>
    refine .inr ⟨_, _, rfl, hfirst (by omega) (by omega), ?_⟩
    exact List.forall_mem_cons.2 ⟨hmore (by omega) (by omega),
      List.forall_mem_singleton.2 (hmore (by omega) (by omega))⟩
  next h =>
    refine .inr ⟨_, _, rfl, hfirst (by omega) (by omega), ?_⟩
    exact List.forall_mem_cons.2 ⟨hmore (by omega) (by omega),
      List.forall_mem_cons.2 ⟨hmore (by omega) (by omega),
        List.forall_mem_singleton.2 (hmore (by omega) (by omega))⟩⟩

/-! ## Boundaries -/

theorem isBoundary_zero (text : List Char) : IsBoundary (utf8 text) 0 := by
  cases text with
  | nil => exact .inl rfl
  | cons c text =>
    have hstart {b : UInt8} {rest : List UInt8} (h : String.utf8EncodeChar c = b :: rest) :
        (utf8 (c :: text))[0]? = some b := by
      rw [utf8, List.flatMap_cons, h]
      rfl
    rcases encode_cases c with ⟨b, h, hb⟩ | ⟨b, rest, h, hb, -⟩
    · refine .inr ⟨b, hstart h, ?_⟩
      unfold isContinuation
      rw [decide_eq_false (UInt8.not_le.2 hb)]
      rfl
    · refine .inr ⟨b, hstart h, ?_⟩
      unfold isContinuation
      rw [decide_eq_false (UInt8.not_lt.2 hb), Bool.and_false]

theorem isBoundary_append (l m : List UInt8) (i : Nat) :
    IsBoundary (l ++ m) (l.length + i) ↔ IsBoundary m i := by
  unfold IsBoundary
  rw [List.length_append, List.getElem?_append_right (Nat.le_add_right _ _),
    Nat.add_sub_cancel_left]
  exact or_congr_left (by omega)

/-- **After a byte of ASCII a slice may end.** -/
theorem isBoundary_succ {text : List Char} {i : Nat} {b : UInt8}
    (h : (utf8 text)[i]? = some b) (hb : b < 0x80) : IsBoundary (utf8 text) (i + 1) := by
  induction text generalizing i with
  | nil => cases h
  | cons c text ih =>
    rw [utf8, List.flatMap_cons] at h ⊢
    by_cases hi : i < (String.utf8EncodeChar c).length
    · rw [List.getElem?_append_left hi] at h
      rcases encode_cases c with ⟨b', hc, -⟩ | ⟨b', rest, hc, hfirst, hrest⟩
      · rw [hc] at hi ⊢
        have hzero : i + 1 = [b'].length + 0 := by simpa using hi
        rw [hzero, isBoundary_append]
        exact isBoundary_zero text
      · have hmem := List.mem_of_getElem? h
        rw [hc] at hmem
        have hlarge : 0x80 ≤ b := by
          rcases List.mem_cons.1 hmem with rfl | hmem
          · exact UInt8.le_trans (by decide) hfirst
          · exact hrest b hmem
        exact absurd hlarge (UInt8.not_le.2 hb)
    · obtain ⟨j, rfl⟩ := Nat.exists_eq_add_of_le (Nat.not_lt.1 hi)
      rw [List.getElem?_append_right (Nat.le_add_right _ _), Nat.add_sub_cancel_left] at h
      rw [Nat.add_assoc, isBoundary_append]
      exact ih h

/-- Before a byte of ASCII a slice may begin. -/
theorem isBoundary_of_ascii {bytes : List UInt8} {i : Nat} {b : UInt8} (h : bytes[i]? = some b)
    (hb : b < 0x80) : IsBoundary bytes i := by
  refine .inr ⟨b, h, ?_⟩
  unfold isContinuation
  rw [decide_eq_false (UInt8.not_le.2 hb)]
  rfl

/-! ## Slices of a text -/

/-- The characters from a position on; `none` where the position is inside a character or behind
the text. -/
def dropBytes : List Char → Nat → Option (List Char)
  | cs, 0 => some cs
  | [], _ + 1 => none
  | c :: cs, n + 1 => if c.utf8Size ≤ n + 1 then dropBytes cs (n + 1 - c.utf8Size) else none

/-- The characters of the first bytes of a text, if they end between two characters. -/
def takeBytes : List Char → Nat → Option (List Char)
  | _, 0 => some []
  | [], _ + 1 => none
  | c :: cs, n + 1 =>
    if c.utf8Size ≤ n + 1 then (takeBytes cs (n + 1 - c.utf8Size)).map (c :: ·) else none

@[simp] theorem utf8_nil : utf8 [] = [] := rfl

theorem utf8_cons (c : Char) (cs : List Char) :
    utf8 (c :: cs) = String.utf8EncodeChar c ++ utf8 cs := List.flatMap_cons

theorem utf8_append (xs ys : List Char) : utf8 (xs ++ ys) = utf8 xs ++ utf8 ys :=
  List.flatMap_append

theorem length_utf8_cons (c : Char) (cs : List Char) :
    (utf8 (c :: cs)).length = c.utf8Size + (utf8 cs).length := by
  rw [utf8_cons, List.length_append, String.length_utf8EncodeChar]

theorem dropBytes_append (before after : List Char) :
    dropBytes (before ++ after) (utf8 before).length = some after := by
  induction before with
  | nil => cases after <;> rfl
  | cons c before ih =>
    obtain ⟨n, hn⟩ := Nat.exists_eq_succ_of_ne_zero (Nat.pos_iff_ne_zero.1 c.utf8Size_pos)
    have hlength : (utf8 (c :: before)).length = n + (utf8 before).length + 1 := by
      rw [length_utf8_cons, hn]
      omega
    rw [List.cons_append, hlength, dropBytes, if_pos (by omega), hn]
    have hrest : n + (utf8 before).length + 1 - n.succ = (utf8 before).length := by omega
    rw [hrest, ih]

/-- A test of bytes that does on ASCII what a test of characters does, and fails elsewhere. -/
structure Tests (p : UInt8 → Bool) (q : Char → Bool) : Prop where
  ascii_eq : ∀ c : Char, c.toNat < 128 → p (ascii c) = q c
  byte : ∀ b : UInt8, 0x80 ≤ b → p b = false
  char : ∀ c : Char, 128 ≤ c.toNat → q c = false

theorem toNat_ascii {c : Char} (h : c.toNat < 128) : (ascii c).toNat = c.toNat := by
  have hval : c.val.toNat < 128 := h
  show c.val.toUInt8.toNat = c.val.toNat
  rw [UInt32.toNat_toUInt8]
  omega

theorem ascii_inj {c d : Char} (hc : c.toNat < 128) (hd : d.toNat < 128) :
    ascii c = ascii d ↔ c = d := by
  refine ⟨fun h => ?_, fun h => h ▸ rfl⟩
  have hnat := congrArg UInt8.toNat h
  rw [toNat_ascii hc, toNat_ascii hd] at hnat
  exact Char.ext (UInt32.toNat_inj.1 hnat)

theorem tests_eq {d : Char} (hd : d.toNat < 128) : Tests (· = ascii d) (· = d) where
  ascii_eq _ hc := decide_eq_decide.2 (ascii_inj hc hd)
  byte b hb := by
    refine decide_eq_false fun h => ?_
    have hnat := UInt8.le_iff_toNat_le.1 hb
    rw [h, toNat_ascii hd] at hnat
    exact absurd hnat (Nat.not_le.2 hd)
  char c hc := by
    refine decide_eq_false fun h => ?_
    rw [h] at hc
    exact absurd hc (Nat.not_le.2 hd)

theorem tests_range {lo hi : Char} (hlo : lo.toNat < 128) (hhi : hi.toNat < 128) :
    Tests (fun b => ascii lo ≤ b && b ≤ ascii hi) (fun c => lo ≤ c && c ≤ hi) where
  ascii_eq c hc := by
    have hle {x y : Char} (hx : x.toNat < 128) (hy : y.toNat < 128) :
        decide (ascii x ≤ ascii y) = decide (x ≤ y) := by
      refine decide_eq_decide.2 ?_
      rw [UInt8.le_iff_toNat_le, toNat_ascii hx, toNat_ascii hy]
      exact UInt32.le_iff_toNat_le.symm
    rw [hle hlo hc, hle hc hhi]
  byte b hb := by
    have hnat := UInt8.le_iff_toNat_le.1 hb
    have hnot : ¬ b ≤ ascii hi := by
      rw [UInt8.le_iff_toNat_le, toNat_ascii hhi]
      exact fun h => absurd (Nat.le_trans hnat h) (Nat.not_le.2 hhi)
    rw [decide_eq_false hnot, Bool.and_false]
  char c hc := by
    have hnot : ¬ c ≤ hi := fun h =>
      absurd (Nat.le_trans hc (UInt32.le_iff_toNat_le.1 h)) (Nat.not_le.2 hhi)
    rw [decide_eq_false hnot, Bool.and_false]

theorem Tests.or {p p' : UInt8 → Bool} {q q' : Char → Bool} (h : Tests p q) (h' : Tests p' q') :
    Tests (fun b => p b || p' b) (fun c => q c || q' c) where
  ascii_eq c hc := by rw [h.ascii_eq c hc, h'.ascii_eq c hc]
  byte b hb := by rw [h.byte b hb, h'.byte b hb]; rfl
  char c hc := by rw [h.char c hc, h'.char c hc]; rfl

theorem encode_ascii {c : Char} (h : c.toNat < 128) : String.utf8EncodeChar c = [ascii c] := by
  unfold String.utf8EncodeChar
  dsimp only
  have hval : c.val.toNat ≤ 0x7f := Nat.le_of_lt_succ h
  rw [if_pos hval]
  refine congrArg (fun b => [b]) (UInt8.toNat_inj.1 ?_)
  rw [toNat_ascii h, UInt8.toNat_ofNat', Nat.mod_eq_of_lt]
  · rfl
  · omega

theorem encode_wide {c : Char} (h : 128 ≤ c.toNat) :
    ∃ b rest, String.utf8EncodeChar c = b :: rest ∧ 0x80 ≤ b := by
  rcases encode_cases c with ⟨b, henc, hb⟩ | ⟨b, rest, henc, hb, -⟩
  · exfalso
    unfold String.utf8EncodeChar at henc
    dsimp only at henc
    have hval : ¬ c.val.toNat ≤ 0x7f := fun hle => absurd (Nat.le_trans h hle) (by decide)
    rw [if_neg hval] at henc
    split at henc
    · cases henc
    · split at henc <;> cases henc
  · exact ⟨b, rest, henc, UInt8.le_trans (by decide) hb⟩

/-- The first byte of a character passes the tests that the character passes. -/
theorem encode_tests (c : Char) :
    ∃ b rest, String.utf8EncodeChar c = b :: rest ∧
      ∀ (p : UInt8 → Bool) (q : Char → Bool), Tests p q → p b = q c := by
  by_cases hc : c.toNat < 128
  · exact ⟨_, [], encode_ascii hc, fun p q h => h.ascii_eq c hc⟩
  · obtain ⟨b, rest, henc, hb⟩ := encode_wide (Nat.not_lt.1 hc)
    exact ⟨b, rest, henc, fun p q h => (h.byte b hb).trans (h.char c (Nat.not_lt.1 hc)).symm⟩

theorem length_utf8_of_ascii {cs : List Char} (h : ∀ c ∈ cs, c.toNat < 128) :
    (utf8 cs).length = cs.length := by
  induction cs with
  | nil => rfl
  | cons c cs ih =>
    rw [utf8_cons, encode_ascii (h c List.mem_cons_self), List.length_append,
      ih fun d hd => h d (List.mem_cons_of_mem c hd), List.length_singleton, List.length_cons]
    exact Nat.add_comm _ _

end Plenora.Lib.Utf8
