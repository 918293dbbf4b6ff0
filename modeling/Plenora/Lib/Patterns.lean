import Mathlib

/-!
# Patterns over characters

The regular expressions that a hand-written recogniser stands for: classes of characters, words,
and their repetitions.

    text ∈ (oneOf cs).star.matches' ↔ ∀ c ∈ text, c ∈ cs                     (mem_star_oneOf)
    text ∈ (joined P '.').matches' ↔ ...                                        (mem_joined)
-/

namespace Plenora.Lib.Patterns

open RegularExpression

abbrev Pattern := RegularExpression Char

/-- One character of a class. -/
def oneOf (cs : List Char) : Pattern := (cs.map char).foldr (· + ·) 0

/-- These characters, in this order. -/
def word (cs : List Char) : Pattern := (cs.map char).foldr (· * ·) 1

/-- The characters from `lo` to `hi`. -/
def between (lo hi : Char) : List Char :=
  (List.range' lo.toNat (hi.toNat + 1 - lo.toNat)).map Char.ofNat

def oneOrMore (P : Pattern) : Pattern := P * P.star

theorem mem_oneOf {cs text : List Char} :
    text ∈ (oneOf cs).matches' ↔ ∃ c ∈ cs, text = [c] := by
  induction cs with
  | nil => exact iff_of_false (fun h => h) (by simp)
  | cons d cs ih =>
    show text ∈ (char d).matches' + (oneOf cs).matches' ↔ _
    rw [Language.mem_add, ih, matches'_char, List.exists_mem_cons_iff]
    exact Iff.rfl

theorem mem_word {cs text : List Char} : text ∈ (word cs).matches' ↔ text = cs := by
  induction cs generalizing text with
  | nil => exact Iff.rfl
  | cons d cs ih =>
    show text ∈ (char d).matches' * (word cs).matches' ↔ _
    rw [Language.mem_mul, matches'_char]
    constructor
    · rintro ⟨a, rfl, b, hb, rfl⟩
      rw [ih.1 hb]
      rfl
    · rintro rfl
      exact ⟨[d], rfl, cs, ih.2 rfl, rfl⟩

theorem mem_star_oneOf {cs text : List Char} :
    text ∈ (oneOf cs).star.matches' ↔ ∀ c ∈ text, c ∈ cs := by
  rw [matches'_star, Language.mem_kstar]
  constructor
  · rintro ⟨parts, rfl, hparts⟩ c hc
    obtain ⟨part, hpart, hmem⟩ := List.mem_flatten.1 hc
    obtain ⟨d, hd, rfl⟩ := mem_oneOf.1 (hparts part hpart)
    rwa [List.mem_singleton.1 hmem]
  · intro h
    refine ⟨text.map fun c => [c], ?_, ?_⟩
    · induction text with
      | nil => rfl
      | cons c text ih =>
        rw [List.map_cons, List.flatten_cons, ← ih fun d hd => h d (List.mem_cons_of_mem c hd)]
        rfl
    · intro part hpart
      obtain ⟨c, hc, rfl⟩ := List.mem_map.1 hpart
      exact mem_oneOf.2 ⟨c, h c hc, rfl⟩

theorem mem_mul {P Q : Pattern} {text : List Char} :
    text ∈ (P * Q).matches' ↔ ∃ a ∈ P.matches', ∃ b ∈ Q.matches', a ++ b = text := by
  rw [matches'_mul, Language.mem_mul]

/-- A first character of a class. -/
theorem mem_oneOf_mul {cs text : List Char} {P : Pattern} :
    text ∈ (oneOf cs * P).matches' ↔ ∃ c rest, text = c :: rest ∧ c ∈ cs ∧ rest ∈ P.matches' := by
  rw [mem_mul]
  constructor
  · rintro ⟨a, ha, b, hb, rfl⟩
    obtain ⟨c, hc, rfl⟩ := mem_oneOf.1 ha
    exact ⟨c, b, rfl, hc, hb⟩
  · rintro ⟨c, rest, rfl, hc, hrest⟩
    exact ⟨[c], mem_oneOf.2 ⟨c, hc, rfl⟩, rest, hrest, rfl⟩

theorem mem_word_mul {cs text : List Char} {P : Pattern} :
    text ∈ (word cs * P).matches' ↔ ∃ rest ∈ P.matches', text = cs ++ rest := by
  rw [mem_mul]
  constructor
  · rintro ⟨a, ha, b, hb, rfl⟩
    rw [mem_word.1 ha]
    exact ⟨b, hb, rfl⟩
  · rintro ⟨rest, hrest, rfl⟩
    exact ⟨cs, mem_word.2 rfl, rest, hrest, rfl⟩

theorem mem_oneOrMore_oneOf {cs text : List Char} :
    text ∈ (oneOrMore (oneOf cs)).matches' ↔ text ≠ [] ∧ ∀ c ∈ text, c ∈ cs := by
  rw [oneOrMore, mem_oneOf_mul]
  constructor
  · rintro ⟨c, rest, rfl, hc, hrest⟩
    exact ⟨List.cons_ne_nil _ _, List.forall_mem_cons.2 ⟨hc, mem_star_oneOf.1 hrest⟩⟩
  · rintro ⟨hne, hall⟩
    obtain ⟨c, rest, rfl⟩ := List.exists_cons_of_ne_nil hne
    obtain ⟨hc, hrest⟩ := List.forall_mem_cons.1 hall
    exact ⟨c, rest, rfl, hc, mem_star_oneOf.2 hrest⟩

/-- Two pieces or more, with `mark` between them. -/
def joined (P : Pattern) (mark : Char) : Pattern := P * oneOrMore (char mark * P)

theorem mem_char_mul {mark : Char} {P : Pattern} {text : List Char} :
    text ∈ (char mark * P).matches' ↔ ∃ rest ∈ P.matches', text = mark :: rest := by
  rw [mem_mul]
  constructor
  · rintro ⟨a, ha, b, hb, rfl⟩
    rw [matches'_char] at ha
    exact ⟨b, hb, by rw [show a = [mark] from ha]; rfl⟩
  · rintro ⟨rest, hrest, rfl⟩
    exact ⟨[mark], by rw [matches'_char]; rfl, rest, hrest, rfl⟩

theorem intercalate_cons (mark : Char) (first : List Char) (others : List (List Char)) :
    [mark].intercalate (first :: others) = first ++ (others.map (mark :: ·)).flatten := by
  induction others generalizing first with
  | nil => simp [List.intercalate]
  | cons second others ih =>
    have hstep : [mark].intercalate (first :: second :: others) =
        first ++ mark :: [mark].intercalate (second :: others) := by simp [List.intercalate]
    rw [hstep, ih]
    rfl

/-- **The pieces of a joined text are its fields.** -/
theorem mem_joined {P : Pattern} {mark : Char} (hmark : ∀ text ∈ P.matches', mark ∉ text)
    {text : List Char} :
    text ∈ (joined P mark).matches' ↔ ∃ first others, text.splitOn mark = first :: others ∧
      others ≠ [] ∧ ∀ piece ∈ first :: others, piece ∈ P.matches' := by
  unfold joined oneOrMore
  rw [mem_mul]
  constructor
  · rintro ⟨first, hfirst, more, hmore, rfl⟩
    obtain ⟨a, ha, b, hb, rfl⟩ := mem_mul.1 hmore
    obtain ⟨second, hsecond, rfl⟩ := mem_char_mul.1 ha
    rw [matches'_star, Language.mem_kstar] at hb
    obtain ⟨parts, rfl, hparts⟩ := hb
    obtain ⟨others, rfl, hothers⟩ : ∃ others : List (List Char), parts = others.map (mark :: ·) ∧
        ∀ piece ∈ others, piece ∈ P.matches' := by
      clear hmore ha
      induction parts with
      | nil => exact ⟨[], rfl, fun piece hpiece => absurd hpiece List.not_mem_nil⟩
      | cons part parts ih =>
        obtain ⟨hpart, hmore⟩ := List.forall_mem_cons.1 hparts
        obtain ⟨piece, hpiece, rfl⟩ := mem_char_mul.1 hpart
        obtain ⟨others, rfl, hothers⟩ := ih hmore
        exact ⟨piece :: others, rfl, List.forall_mem_cons.2 ⟨hpiece, hothers⟩⟩
    have hall : ∀ piece ∈ first :: second :: others, piece ∈ P.matches' :=
      List.forall_mem_cons.2 ⟨hfirst, List.forall_mem_cons.2 ⟨hsecond, hothers⟩⟩
    refine ⟨first, second :: others, ?_, List.cons_ne_nil _ _, hall⟩
    have htext : first ++ (mark :: second ++ (others.map (mark :: ·)).flatten) =
        [mark].intercalate (first :: second :: others) := by
      rw [intercalate_cons]
      rfl
    rw [htext]
    exact List.splitOn_intercalate mark (fun piece hpiece => hmark piece (hall piece hpiece))
      (List.cons_ne_nil _ _)
  · rintro ⟨first, others, hsplit, hne, hall⟩
    obtain ⟨hfirst, hothers⟩ := List.forall_mem_cons.1 hall
    obtain ⟨second, others, rfl⟩ := List.exists_cons_of_ne_nil hne
    obtain ⟨hsecond, hothers⟩ := List.forall_mem_cons.1 hothers
    refine ⟨first, hfirst, (mark :: second) ++ (others.map (mark :: ·)).flatten,
      mem_mul.2 ⟨mark :: second, mem_char_mul.2 ⟨second, hsecond, rfl⟩,
        (others.map (mark :: ·)).flatten, ?_, rfl⟩, ?_⟩
    · rw [matches'_star, Language.mem_kstar]
      refine ⟨_, rfl, fun part hpart => ?_⟩
      obtain ⟨piece, hpiece, rfl⟩ := List.mem_map.1 hpart
      exact mem_char_mul.2 ⟨piece, hothers piece hpiece, rfl⟩
    · have hjoin : [mark].intercalate (text.splitOn mark) = text := List.intercalate_splitOn mark
      rw [hsplit, intercalate_cons] at hjoin
      exact hjoin

/-- The characters of a range, below the surrogates. -/
theorem mem_between {lo hi c : Char} (h : hi.toNat < 0xD800) :
    c ∈ between lo hi ↔ lo ≤ c ∧ c ≤ hi := by
  have hle (a b : Char) : a ≤ b ↔ a.toNat ≤ b.toNat := UInt32.le_iff_toNat_le
  have hofNat {n : Nat} (hn : n < 0xD800) : (Char.ofNat n).toNat = n := by
    rw [Char.ofNat, dif_pos (.inl hn)]
    rfl
  rw [hle, hle]
  unfold between
  rw [List.mem_map]
  constructor
  · rintro ⟨n, hn, rfl⟩
    rw [List.mem_range'_1] at hn
    rw [hofNat (by omega)]
    omega
  · rintro ⟨hlo, hhi⟩
    exact ⟨c.toNat, List.mem_range'_1.2 ⟨hlo, by omega⟩, Char.ofNat_toNat c⟩

/-! ## Prefixes, suffixes and separators -/

/-- The text behind a prefix. -/
def stripPrefix (start text : List Char) : Option (List Char) :=
  if start <+: text then some (text.drop start.length) else none

/-- The text before a suffix. -/
def stripSuffix (stop text : List Char) : Option (List Char) :=
  if stop <:+ text then some (text.take (text.length - stop.length)) else none

/-- The text around the last occurrence of a separator. -/
def rsplitOnce (sep : List Char) : List Char → Option (List Char × List Char)
  | [] => if sep = [] then some ([], []) else none
  | c :: rest =>
    match rsplitOnce sep rest with
    | some (before, after) => some (c :: before, after)
    | none => if sep <+: c :: rest then some ([], (c :: rest).drop sep.length) else none

/-- The text around the first occurrence of a character. -/
def splitOnce (mark : Char) (text : List Char) : Option (List Char × List Char) :=
  match text.dropWhile (· ≠ mark) with
  | [] => none
  | _ :: after => some (text.takeWhile (· ≠ mark), after)

theorem stripPrefix_iff {start text rest : List Char} :
    stripPrefix start text = some rest ↔ text = start ++ rest := by
  unfold stripPrefix
  constructor
  · intro h
    split at h
    next hprefix =>
      cases h
      exact (List.prefix_iff_eq_append.1 hprefix).symm
    next => cases h
  · rintro rfl
    rw [if_pos (List.prefix_append _ _), List.drop_left]

theorem stripSuffix_iff {stop text rest : List Char} :
    stripSuffix stop text = some rest ↔ text = rest ++ stop := by
  unfold stripSuffix
  constructor
  · intro h
    split at h
    next hsuffix =>
      cases h
      exact (List.suffix_iff_eq_append.1 hsuffix).symm
    next => cases h
  · rintro rfl
    rw [if_pos (List.suffix_append _ _), List.length_append, Nat.add_sub_cancel, List.take_left]

theorem rsplitOnce_sound {sep text before after : List Char}
    (h : rsplitOnce sep text = some (before, after)) : text = before ++ (sep ++ after) := by
  induction text generalizing before with
  | nil =>
    rw [rsplitOnce] at h
    split at h
    next hsep =>
      cases h
      rw [hsep]
      rfl
    next => cases h
  | cons c rest ih =>
    rw [rsplitOnce] at h
    split at h
    next hrest =>
      cases h
      rw [ih hrest]
      rfl
    next =>
      split at h
      next hprefix =>
        cases h
        exact (List.prefix_iff_eq_append.1 hprefix).symm
      next => cases h

/-- No separator whose first character does not occur. -/
theorem rsplitOnce_none {mark : Char} {sep text : List Char} (h : mark ∉ text) :
    rsplitOnce (mark :: sep) text = none := by
  cases hsplit : rsplitOnce (mark :: sep) text with
  | none => rfl
  | some r =>
    have htext := rsplitOnce_sound (show _ = some (r.1, r.2) from hsplit)
    rw [htext] at h
    exact absurd (List.mem_append_right r.1 List.mem_cons_self) h

/-- The last separator, where its first character does not occur behind it. -/
theorem rsplitOnce_last {mark : Char} {sep after : List Char} (hsep : mark ∉ sep)
    (hafter : mark ∉ after) (before : List Char) :
    rsplitOnce (mark :: sep) (before ++ (mark :: sep ++ after)) = some (before, after) := by
  induction before with
  | nil =>
    have hnone : rsplitOnce (mark :: sep) (sep ++ after) = none :=
      rsplitOnce_none (by simp [hsep, hafter])
    rw [List.nil_append, List.cons_append, rsplitOnce, hnone]
    dsimp only
    rw [if_pos ⟨after, rfl⟩, ← List.cons_append, List.drop_left]
  | cons c before ih =>
    rw [List.cons_append, rsplitOnce, ih]

theorem splitOnce_iff {mark : Char} {text before after : List Char} :
    splitOnce mark text = some (before, after) ↔ text = before ++ mark :: after ∧ mark ∉ before := by
  unfold splitOnce
  constructor
  · intro h
    split at h
    next => cases h
    next c rest hdrop =>
      cases h
      have hc : c = mark := by
        have hhead := List.head?_dropWhile_not (· ≠ mark) text
        rw [hdrop] at hhead
        simpa using hhead
      refine ⟨?_, fun hmem => ?_⟩
      · rw [hc] at hdrop
        rw [← hdrop]
        exact List.takeWhile_append_dropWhile.symm
      · simpa using List.mem_takeWhile_imp hmem
  · rintro ⟨rfl, hbefore⟩
    have hall : ∀ c ∈ before, decide (c ≠ mark) = true := fun c hc =>
      decide_eq_true fun heq => hbefore (heq ▸ hc)
    rw [List.dropWhile_append_of_pos hall, List.takeWhile_append_of_pos hall]
    simp

end Plenora.Lib.Patterns
