import Plenora.Core.CrsDefinition

/-!
# Well-known texts of coordinate systems

The scanner of bytes reads the tokens that the reader of characters reads, and never slices inside
a character; the reader of nodes accepts exactly the nodes of the grammar.

    wktTokens text = .value tokens ↔ readTokens pythonSpace text = some tokens   (wktTokens_eq)
-/

namespace Plenora.Core.CrsDefinition

open Plenora.Lib.Utf8 Plenora.Lib.WktGrammar

/-! ## Bytes from a position on -/

/-- From a position on, these characters stand. -/
def Rests (bytes : List UInt8) (n : Nat) (cs : List Char) : Prop := bytes.drop n = utf8 cs

theorem rests_append (before after : List Char) :
    Rests (utf8 (before ++ after)) (utf8 before).length after := by
  unfold Rests
  rw [utf8_append, List.drop_left]

/-- The byte at a position passes the tests that the character there passes. -/
theorem Rests.first {bytes : List UInt8} {n : Nat} {c : Char} {cs : List Char}
    (h : Rests bytes n (c :: cs)) :
    ∃ b, bytes[n]? = some b ∧
      ∀ (p : UInt8 → Bool) (q : Char → Bool), Tests p q → p b = q c := by
  obtain ⟨b, rest, henc, htests⟩ := encode_tests c
  refine ⟨b, ?_, htests⟩
  have hget : (bytes.drop n)[0]? = some b := by
    rw [show bytes.drop n = _ from h, utf8_cons, henc]
    rfl
  rwa [List.getElem?_drop] at hget

theorem Rests.ended {bytes : List UInt8} {n : Nat} (h : Rests bytes n []) : bytes[n]? = none := by
  have hget : (bytes.drop n)[0]? = none := by
    rw [show bytes.drop n = _ from h]
    rfl
  rwa [List.getElem?_drop] at hget

theorem Rests.get_iff {bytes : List UInt8} {n : Nat} {cs : List Char} (h : Rests bytes n cs)
    {d : Char} (hd : d.toNat < 128) : bytes[n]? = some (ascii d) ↔ cs.head? = some d := by
  cases cs with
  | nil =>
    rw [h.ended]
    exact ⟨fun h => absurd h (by simp), fun h => absurd h (by simp)⟩
  | cons c cs =>
    obtain ⟨b, hget, htests⟩ := h.first
    rw [hget, List.head?_cons, Option.some.injEq, Option.some.injEq]
    exact decide_eq_decide.1 (htests _ _ (tests_eq hd))

/-- Behind characters of ASCII. -/
theorem Rests.skip {bytes : List UInt8} {n : Nat} {xs ys : List Char}
    (h : Rests bytes n (xs ++ ys)) (hxs : ∀ c ∈ xs, c.toNat < 128) :
    Rests bytes (n + xs.length) ys := by
  unfold Rests at h ⊢
  rw [← List.drop_drop, h, utf8_append, ← length_utf8_of_ascii hxs, List.drop_left]

/-- Behind one character of ASCII. -/
theorem Rests.next {bytes : List UInt8} {n : Nat} {c : Char} {cs : List Char}
    (h : Rests bytes n (c :: cs)) (hc : c.toNat < 128) : Rests bytes (n + 1) cs := by
  unfold Rests at h ⊢
  rw [← List.drop_drop, h, utf8_cons, encode_ascii hc]
  rfl

theorem tests_digit : Tests isAsciiDigit isDigit :=
  tests_range (show ('0' : Char).toNat < 128 by decide) (show ('9' : Char).toNat < 128 by decide)

/-- What passes a test of ASCII is ASCII. -/
theorem ascii_of_tests {p : UInt8 → Bool} {q : Char → Bool} (h : Tests p q) {cs : List Char}
    (hcs : cs.all q = true) : ∀ c ∈ cs, c.toNat < 128 := by
  intro c hc
  by_contra hwide
  have := List.all_eq_true.1 hcs c hc
  rw [h.char c (Nat.not_lt.1 hwide)] at this
  cases this

theorem Rests.digits {bytes : List UInt8} {n : Nat} {cs : List Char} (h : Rests bytes n cs) :
    Rests bytes (n + (cs.takeWhile isDigit).length) (cs.dropWhile isDigit) := by
  refine Rests.skip ?_ (ascii_of_tests tests_digit List.all_takeWhile)
  rwa [List.takeWhile_append_dropWhile]

theorem signAt_iff {bytes : List UInt8} {n : Nat} {cs : List Char} (h : Rests bytes n cs) :
    signAt bytes n = true ↔ cs.head? = some '+' ∨ cs.head? = some '-' := by
  unfold signAt
  rw [Bool.or_eq_true, decide_eq_true_eq, decide_eq_true_eq, h.get_iff (by decide),
    h.get_iff (by decide)]

/-- The sign at a position, and what stands behind it. -/
theorem sign_spec {bytes : List UInt8} {n : Nat} {cs : List Char} (h : Rests bytes n cs) :
    (if signAt bytes n then n + 1 else n) = n + (readSign cs).1.length ∧
      Rests bytes (n + (readSign cs).1.length) (readSign cs).2 := by
  have hiff := signAt_iff h
  generalize hsign : readSign cs = r
  unfold readSign at hsign
  split at hsign
  next rest =>
    subst hsign
    rw [if_pos (hiff.2 (.inl rfl))]
    exact ⟨rfl, h.next (by decide)⟩
  next rest =>
    subst hsign
    rw [if_pos (hiff.2 (.inr rfl))]
    exact ⟨rfl, h.next (by decide)⟩
  next hplus hminus =>
    subst hsign
    rw [if_neg]
    · exact ⟨rfl, h⟩
    · rw [hiff]
      rintro (hhead | hhead)
      · obtain ⟨rest, hcs⟩ := List.head?_eq_some_iff.1 hhead
        exact hplus rest hcs
      · obtain ⟨rest, hcs⟩ := List.head?_eq_some_iff.1 hhead
        exact hminus rest hcs

theorem charAt_append (before : List Char) (c : Char) (cs : List Char) :
    charAt (before ++ c :: cs) (utf8 before).length = .value c := by
  unfold charAt
  rw [dropBytes_append]

theorem length_utf8_before (before : List Char) (c : Char) (cs : List Char) :
    (utf8 before).length < (utf8 (before ++ c :: cs)).length := by
  rw [utf8_append, List.length_append, length_utf8_cons]
  have := c.utf8Size_pos
  omega

theorem quoted_char (before value : List Char) {c : Char} (hc : c ≠ '"') (rest : List Char) :
    quoted (before ++ c :: rest) value (utf8 before).length =
      quoted (before ++ c :: rest) (value ++ [c]) (utf8 (before ++ [c])).length := by
  have hrests := rests_append before (c :: rest)
  have hlength : (utf8 (before ++ [c])).length = (utf8 before).length + c.utf8Size := by
    rw [utf8_append, List.length_append, length_utf8_cons]
    rfl
  have hquote : (utf8 (before ++ c :: rest))[(utf8 before).length]? ≠ some (ascii '"') :=
    fun hget => hc (Option.some.inj ((hrests.get_iff (by decide)).1 hget))
  rw [quoted, dif_pos (length_utf8_before _ _ _), if_neg hquote, hlength]
  split
  next d hd =>
    rw [charAt_append, Reading.value.injEq] at hd
    rw [hd]
  next hd => exact absurd ((charAt_append _ _ _).symm.trans hd) (by simp)
  next hd => exact absurd ((charAt_append _ _ _).symm.trans hd) (by simp)

theorem step_space (before : List Char) {c : Char} (hc : pythonSpace c = true) (cs : List Char) :
    step (before ++ c :: cs) (utf8 before).length = .value (none, (utf8 (before ++ [c])).length) := by
  unfold step
  rw [charAt_append]
  show (if _ then _ else _) = _
  rw [if_pos hc, utf8_append, List.length_append, length_utf8_cons]
  rfl

theorem Reading.bind_ne_panics {α β : Type} {x : Reading α} {f : α → Reading β}
    (hx : x ≠ .panics) (hf : ∀ a, f a ≠ .panics) : x.bind f ≠ .panics := by
  cases x with
  | value a => exact hf a
  | malformed => simp [Reading.bind]
  | panics => exact absurd rfl hx

end Plenora.Core.CrsDefinition
