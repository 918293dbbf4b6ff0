import Plenora.Core.Projjson
import Plenora.Lib.NumberText

/-!
# Strings and numbers of a PROJJSON definition

What the cursor reads is what the grammar spells: a string its code points, with the surrogates of
a pair joined, and a number its text, where what follows cannot go on with it.

    stringa (quoted marks ++ rest) = some (points marks, rest)                (stringa_quoted)
    Ends rest → numero (raw ++ rest) = some (integerText raw, rest)           (numero_append)
-/

namespace Plenora.Core.Projjson

open Plenora.Lib Plenora.Lib.Json

/-! ## Spaces -/

theorem spazi_split (t : Text) : ∃ before, IsSpace before ∧ t = before ++ spazi t :=
  ⟨t.takeWhile isSpace, fun _ hc => List.mem_takeWhile_imp hc,
    List.takeWhile_append_dropWhile.symm⟩

theorem spazi_append {before : Text} (h : IsSpace before) (t : Text) :
    spazi (before ++ t) = spazi t := List.dropWhile_append_of_pos h

theorem spazi_cons {c : Char} (h : isSpace c = false) (t : Text) : spazi (c :: t) = c :: t :=
  List.dropWhile_cons_of_neg (by simp [h])

theorem spazi_of_isSpace {t : Text} (h : IsSpace t) : spazi t = [] :=
  List.dropWhile_eq_nil_iff.2 h

theorem isSpace_of_spazi {t : Text} (h : spazi t = []) : IsSpace t := List.dropWhile_eq_nil_iff.1 h

/-- What may stand behind a value. -/
def Ends (rest : Text) : Prop :=
  ∀ c ∈ rest.head?, isSpace c = true ∨ c = ',' ∨ c = ']' ∨ c = '}'

theorem ends_nil : Ends [] := fun c hc => absurd hc (by simp)

theorem ends_cons {c : Char} (h : isSpace c = true ∨ c = ',' ∨ c = ']' ∨ c = '}') (rest : Text) :
    Ends (c :: rest) := by
  rintro d ⟨⟩
  exact h

theorem ends_append {after rest : Text} (h : IsSpace after) (hrest : Ends rest) :
    Ends (after ++ rest) := by
  cases after with
  | nil => exact hrest
  | cons c after => exact ends_cons (.inl (h c List.mem_cons_self)) _

/-! ## Strings -/

theorem esadecimale_append {digits : Text} {n : Nat} (h : IsCode digits n) (rest : Text) :
    esadecimale (digits ++ rest) = some (n, rest) := by
  have htake : (digits ++ rest).take 4 = digits := List.take_left' h.1
  have hdrop : (digits ++ rest).drop 4 = rest := List.drop_left' h.1
  unfold esadecimale
  rw [htake, hdrop, if_pos h.1, h.2]
  rfl

theorem esadecimale_sound {t rest : Text} {n : Nat} (h : esadecimale t = some (n, rest)) :
    ∃ digits, IsCode digits n ∧ t = digits ++ rest := by
  unfold esadecimale at h
  split at h
  next hlength =>
    obtain ⟨m, hm, heq⟩ := Option.map_eq_some_iff.1 h
    cases heq
    exact ⟨t.take 4, ⟨hlength, hm⟩, (List.take_append_drop 4 t).symm⟩
  next => cases h

theorem codeOf_eq {digits : Text} {n : Nat} (h : IsCode digits n) : codeOf digits = n := by
  unfold codeOf
  rw [h.2]
  rfl

/-- A code that no low surrogate completes. -/
theorem codice_alone {digits : Text} {n : Nat} (h : IsCode digits n) {rest : Text}
    (hrest : isHigh n = true → ∀ more, rest = '\\' :: 'u' :: more →
      ∃ low after, esadecimale more = some (low, after) ∧ isLow low = false) :
    codice (digits ++ rest) = some (n, rest) := by
  unfold codice
  rw [esadecimale_append h]
  show (if isHigh n = true then _ else _) = _
  split
  next hhigh =>
    dsimp only
    split
    next more =>
      obtain ⟨low, after, hlow, hnot⟩ := hrest hhigh more rfl
      rw [hlow, Option.map_some]
      dsimp only
      rw [if_neg (by simp [hnot])]
    next => rfl
  next => rfl

theorem codice_pair {high low : Text} {m n : Nat} (hhigh : IsCode high m) (hlow : IsCode low n)
    (hm : isHigh m = true) (hn : isLow n = true) (rest : Text) :
    codice (high ++ '\\' :: 'u' :: (low ++ rest)) = some (ofPair m n, rest) := by
  unfold codice
  rw [esadecimale_append hhigh]
  show (if isHigh m = true then _ else _) = _
  rw [if_pos hm]
  show (esadecimale (low ++ rest)).map _ = _
  rw [esadecimale_append hlow, Option.map_some, if_pos hn]

theorem punto_char {c : Char} (h : (Mark.char c).WellFormed) (rest : Text) :
    punto (c :: rest) = some (some c.toNat, rest) := by
  rw [punto, if_neg h.1, if_neg h.2.1, if_neg (Nat.not_lt.2 h.2.2)]

theorem punto_escape {e c : Char} (h : escaped e = some c) (rest : Text) :
    punto ('\\' :: e :: rest) = some (some c.toNat, rest) := by
  have he : e ≠ 'u' := by
    rintro rfl
    revert h
    simp [escaped]
  rw [punto, if_neg (by decide), if_pos rfl, escape, if_neg he, h]
  rfl

theorem punto_unit (t : Text) :
    punto ('\\' :: 'u' :: t) = (codice t).map fun r => (some r.1, r.2) := by
  rw [punto, if_neg (by decide), if_pos rfl, escape, if_pos rfl]

theorem scorri_quote (rest : Text) : scorri ('"' :: rest) = some ([], rest) := by
  have hpunto : punto ('"' :: rest) = some (none, rest) := by rw [punto, if_pos rfl]
  rw [scorri]
  split
  next h => exact absurd (hpunto.symm.trans h) (by simp)
  next h =>
    cases hpunto.symm.trans h
    rfl
  next h => exact absurd (hpunto.symm.trans h) (by simp)

theorem scorri_punto {t rest : Text} {n : Nat} (hpunto : punto t = some (some n, rest)) :
    scorri t = (scorri rest).map fun r => (n :: r.1, r.2) := by
  rw [scorri]
  split
  next h => exact absurd (hpunto.symm.trans h) (by simp)
  next h => exact absurd (hpunto.symm.trans h) (by simp)
  next h =>
    cases hpunto.symm.trans h
    rfl

theorem points_unit {digits : Text} {marks : List Mark}
    (h : ∀ low more, marks = .unit low :: more →
      ¬ (isHigh (codeOf digits) = true ∧ isLow (codeOf low) = true)) :
    points (.unit digits :: marks) = codeOf digits :: points marks := by
  cases marks with
  | nil => rfl
  | cons m marks =>
    cases m with
    | char => rfl
    | escape => rfl
    | unit low => rw [points, if_neg (h low marks rfl)]

/-- Only a code is written with `\u`. -/
theorem unit_front {marks : List Mark} (h : ∀ m ∈ marks, m.WellFormed) {rest more : Text}
    (heq : marks.flatMap Mark.text ++ '"' :: rest = '\\' :: 'u' :: more) :
    ∃ low n others, marks = .unit low :: others ∧ IsCode low n ∧
      more = low ++ (others.flatMap Mark.text ++ '"' :: rest) := by
  cases marks with
  | nil => exact absurd (List.cons.inj heq).1 (by decide)
  | cons m marks =>
    have hm := h m List.mem_cons_self
    cases m with
    | char c => exact absurd (List.cons.inj heq).1 hm.2.1
    | escape e =>
      obtain ⟨c, hc⟩ := hm
      have he : e = 'u' := (List.cons.inj (List.cons.inj heq).2).1
      rw [he] at hc
      exact absurd hc (by simp [escaped])
    | unit low =>
      obtain ⟨n, hn⟩ := hm
      refine ⟨low, n, marks, rfl, hn, ?_⟩
      have hmore := (List.cons.inj (List.cons.inj heq).2).2
      rw [← hmore]
      exact List.append_assoc _ _ _

/-- A code that the next mark does not complete is read alone. -/
theorem scorri_unit {digits : Text} {n : Nat} (h : IsCode digits n) {marks : List Mark}
    (hmarks : ∀ m ∈ marks, m.WellFormed) {rest : Text}
    (hnot : ∀ low others m, marks = .unit low :: others → IsCode low m →
      ¬ (isHigh n = true ∧ isLow m = true)) :
    scorri ((Mark.unit digits :: marks).flatMap Mark.text ++ '"' :: rest) =
      (scorri (marks.flatMap Mark.text ++ '"' :: rest)).map fun r => (n :: r.1, r.2) := by
  have htext : (Mark.unit digits :: marks).flatMap Mark.text ++ '"' :: rest =
      '\\' :: 'u' :: (digits ++ (marks.flatMap Mark.text ++ '"' :: rest)) := by
    simp [Mark.text]
  have halone : codice (digits ++ (marks.flatMap Mark.text ++ '"' :: rest)) =
      some (n, marks.flatMap Mark.text ++ '"' :: rest) := by
    refine codice_alone h fun hhigh more heq => ?_
    obtain ⟨low, m, others, hunit, hm, rfl⟩ := unit_front hmarks heq
    refine ⟨m, _, esadecimale_append hm _, ?_⟩
    cases hlow : isLow m with
    | false => rfl
    | true => exact absurd ⟨hhigh, hlow⟩ (hnot low others m hunit hm)
  rw [htext]
  exact scorri_punto ((punto_unit _).trans (congrArg _ halone))

/-- **The marks of a string are read as its code points.** -/
theorem scorri_marks {marks : List Mark} (h : ∀ m ∈ marks, m.WellFormed) (rest : Text) :
    scorri (marks.flatMap Mark.text ++ '"' :: rest) = some (points marks, rest) := by
  fun_induction points marks with
  | case1 => exact scorri_quote rest
  | case2 c marks ih =>
    obtain ⟨hc, hmarks⟩ := List.forall_mem_cons.1 h
    show scorri (c :: (marks.flatMap Mark.text ++ '"' :: rest)) = _
    rw [scorri_punto (punto_char hc _), ih hmarks]
    rfl
  | case3 e marks ih =>
    obtain ⟨⟨c, hc⟩, hmarks⟩ := List.forall_mem_cons.1 h
    show scorri ('\\' :: e :: (marks.flatMap Mark.text ++ '"' :: rest)) = _
    rw [scorri_punto (punto_escape hc _), ih hmarks, hc]
    rfl
  | case4 high low marks hpair ih =>
    obtain ⟨⟨m, hm⟩, hmore⟩ := List.forall_mem_cons.1 h
    obtain ⟨⟨n, hn⟩, hmarks⟩ := List.forall_mem_cons.1 hmore
    rw [codeOf_eq hm, codeOf_eq hn] at hpair ⊢
    have htext : (Mark.unit high :: .unit low :: marks).flatMap Mark.text ++ '"' :: rest =
        '\\' :: 'u' :: (high ++ '\\' :: 'u' :: (low ++
          (marks.flatMap Mark.text ++ '"' :: rest))) := by
      simp [Mark.text]
    have hpunto := (punto_unit _).trans
      (congrArg _ (codice_pair hm hn hpair.1 hpair.2 (marks.flatMap Mark.text ++ '"' :: rest)))
    rw [htext, scorri_punto hpunto, ih hmarks]
    rfl
  | case5 high low marks hpair ih =>
    obtain ⟨⟨m, hm⟩, hmore⟩ := List.forall_mem_cons.1 h
    rw [scorri_unit hm hmore, ih hmore, codeOf_eq hm]
    · rfl
    · rintro low' others n heq hn
      cases heq
      rwa [codeOf_eq hm, codeOf_eq hn] at hpair
  | case6 digits marks hnot ih =>
    obtain ⟨⟨m, hm⟩, hmarks⟩ := List.forall_mem_cons.1 h
    rw [scorri_unit hm hmarks, ih hmarks, codeOf_eq hm]
    · rfl
    · exact fun low others n heq => absurd heq (hnot low others)

theorem codice_sound {t rest : Text} {n : Nat} (h : codice t = some (n, rest)) :
    (∃ digits, IsCode digits n ∧ t = digits ++ rest ∧
      ∀ low more m, rest = '\\' :: 'u' :: (low ++ more) → IsCode low m →
        ¬ (isHigh n = true ∧ isLow m = true)) ∨
    ∃ high low m k, IsCode high m ∧ IsCode low k ∧ isHigh m = true ∧ isLow k = true ∧
      t = high ++ '\\' :: 'u' :: (low ++ rest) ∧ n = ofPair m k := by
  unfold codice at h
  obtain ⟨⟨m, more⟩, hread, hr⟩ := Option.bind_eq_some_iff.1 h
  obtain ⟨digits, hdigits, rfl⟩ := esadecimale_sound hread
  dsimp only at hr
  split at hr
  next hhigh =>
    split at hr
    next after =>
      obtain ⟨⟨k, last⟩, hlow, heq⟩ := Option.map_eq_some_iff.1 hr
      obtain ⟨low, hcode, rfl⟩ := esadecimale_sound hlow
      dsimp only at heq
      split at heq
      next hk =>
        obtain ⟨hn, hrest⟩ := Prod.mk.inj heq
        exact .inr ⟨digits, low, m, k, hdigits, hcode, hhigh, hk, by rw [hrest], hn.symm⟩
      next hk =>
        obtain ⟨hn, hrest⟩ := Prod.mk.inj heq
        subst hn hrest
        refine .inl ⟨digits, hdigits, rfl, fun low' more' m' heq hm' hboth => hk ?_⟩
        have hsame := esadecimale_append hm' more'
        rw [← (List.cons.inj (List.cons.inj heq).2).2, esadecimale_append hcode] at hsame
        cases hsame
        exact hboth.2
    next hnot =>
      cases hr
      exact .inl ⟨digits, hdigits, rfl, fun low more' _ heq _ _ => hnot _ heq⟩
  next hhigh =>
    cases hr
    exact .inl ⟨digits, hdigits, rfl, fun _ _ _ _ _ hboth => hhigh hboth.1⟩

theorem punto_none {t rest : Text} (h : punto t = some (none, rest)) : t = '"' :: rest := by
  unfold punto at h
  split at h
  next => cases h
  next c more =>
    split at h
    next hc =>
      cases h
      rw [hc]
    next =>
    split at h
    next =>
      obtain ⟨r, -, heq⟩ := Option.map_eq_some_iff.1 h
      cases heq
    next =>
    split at h
    next => cases h
    next => cases h

theorem scorri_sound {t rest : Text} {ps : List Nat} (h : scorri t = some (ps, rest)) :
    ∃ marks, (∀ m ∈ marks, Mark.WellFormed m) ∧ ps = points marks ∧
      t = marks.flatMap Mark.text ++ '"' :: rest := by
  fun_induction scorri t generalizing ps with
  | case1 => cases h
  | case2 t more hpunto =>
    cases h
    exact ⟨[], fun _ hm => absurd hm List.not_mem_nil, rfl, punto_none hpunto⟩
  | case3 t n more hpunto ih =>
    obtain ⟨⟨qs, last⟩, hmore, heq⟩ := Option.map_eq_some_iff.1 h
    cases heq
    obtain ⟨marks, hmarks, rfl, rfl⟩ := ih hmore
    unfold punto at hpunto
    split at hpunto
    next => cases hpunto
    next c t =>
      split at hpunto
      next => cases hpunto
      next hquote =>
      split at hpunto
      next hescape =>
        obtain ⟨⟨k, after⟩, hr, heq⟩ := Option.map_eq_some_iff.1 hpunto
        cases heq
        subst hescape
        unfold escape at hr
        split at hr
        next => cases hr
        next e t =>
          split at hr
          next he =>
            subst he
            rcases codice_sound hr with ⟨digits, hdigits, rfl, hnot⟩ |
              ⟨high, low, m, k, hhigh, hlow, hm, hk, rfl, hpoint⟩
            · refine ⟨.unit digits :: marks, List.forall_mem_cons.2 ⟨⟨_, hdigits⟩, hmarks⟩, ?_, ?_⟩
              · rw [points_unit, codeOf_eq hdigits]
                rintro low others rfl hboth
                obtain ⟨m, hm⟩ := hmarks _ List.mem_cons_self
                rw [codeOf_eq hdigits, codeOf_eq hm] at hboth
                refine hnot low (others.flatMap Mark.text ++ '"' :: last) m ?_ hm hboth
                exact List.append_assoc ('\\' :: 'u' :: low) (others.flatMap Mark.text) ('"' :: last)
              · simp [Mark.text]
            · refine ⟨.unit high :: .unit low :: marks, List.forall_mem_cons.2 ⟨⟨_, hhigh⟩,
                List.forall_mem_cons.2 ⟨⟨_, hlow⟩, hmarks⟩⟩, ?_, ?_⟩
              · rw [points, codeOf_eq hhigh, codeOf_eq hlow, if_pos ⟨hm, hk⟩, hpoint]
              · simp [Mark.text]
          next =>
            obtain ⟨c, hc, heq⟩ := Option.map_eq_some_iff.1 hr
            cases heq
            refine ⟨.escape e :: marks, List.forall_mem_cons.2 ⟨⟨c, hc⟩, hmarks⟩, ?_, rfl⟩
            rw [points, hc]
            rfl
      next hescape =>
      split at hpunto
      next => cases hpunto
      next hcontrol =>
        cases hpunto
        exact ⟨.char c :: marks,
          List.forall_mem_cons.2 ⟨⟨hquote, hescape, Nat.not_lt.1 hcontrol⟩, hmarks⟩, rfl, rfl⟩

theorem stringa_quoted {marks : List Mark} (h : ∀ m ∈ marks, m.WellFormed) (rest : Text) :
    stringa (quoted marks ++ rest) = some (points marks, rest) := by
  have htext : quoted marks ++ rest = '"' :: (marks.flatMap Mark.text ++ '"' :: rest) := by
    simp [quoted]
  rw [htext, stringa, atteso, if_pos rfl]
  exact scorri_marks h rest

theorem stringa_sound {t rest : Text} {ps : List Nat} (h : stringa t = some (ps, rest)) :
    ∃ marks, (∀ m ∈ marks, Mark.WellFormed m) ∧ ps = points marks ∧ t = quoted marks ++ rest := by
  obtain ⟨more, hquote, hscorri⟩ := Option.bind_eq_some_iff.1 h
  obtain ⟨marks, hmarks, rfl, rfl⟩ := scorri_sound hscorri
  refine ⟨marks, hmarks, rfl, ?_⟩
  cases t with
  | nil => cases hquote
  | cons c t =>
    rw [atteso] at hquote
    split at hquote
    next hc =>
      cases hquote
      rw [hc]
      simp [quoted]
    next => cases hquote

/-! ## Numbers -/

/-- The number is an integer: its text. -/
def integerText (raw : Text) : Option Text :=
  if raw.any fun c => c = '.' || c = 'e' || c = 'E' then none else some raw

theorem segno_split (t : Text) :
    t = (segno t).1 ++ (segno t).2 ∧ ((segno t).1 = [] ∨ (segno t).1 = ['-']) := by
  unfold segno
  split
  · exact ⟨rfl, .inr rfl⟩
  · exact ⟨rfl, .inl rfl⟩

theorem intera_split {t digits rest : Text} (h : intera t = some (digits, rest)) :
    t = digits ++ rest ∧
      (digits = ['0'] ∨ (Digits digits ∧ digits.head? ≠ some '0')) := by
  unfold intera at h
  split at h
  next => cases h
  next c more =>
    split at h
    next hc =>
      cases h
      exact ⟨by rw [hc]; rfl, .inl rfl⟩
    next hc =>
    split at h
    next hdigit =>
      cases h
      refine ⟨List.takeWhile_append_dropWhile.symm, .inr ⟨⟨?_, ?_⟩, ?_⟩⟩
      · rw [List.takeWhile_cons_of_pos hdigit]
        exact List.cons_ne_nil _ _
      · exact fun d hd => List.mem_takeWhile_imp hd
      · rw [List.takeWhile_cons_of_pos hdigit]
        exact fun heq => hc (Option.some.inj heq)
    next => cases h

theorem cifre_split (t : Text) : ∃ ds, Decimal.AllDigits ds ∧ t = ds ++ cifre t :=
  ⟨t.takeWhile Char.isDigit, fun _ hd => List.mem_takeWhile_imp hd,
    List.takeWhile_append_dropWhile.symm⟩

/-- Digits from a digit on. -/
theorem cifre_cons {d : Char} (hd : d.isDigit = true) (rest : Text) :
    ∃ ds, Digits ds ∧ d :: rest = ds ++ cifre (d :: rest) := by
  obtain ⟨ds, hds, heq⟩ := cifre_split rest
  refine ⟨d :: ds, ⟨List.cons_ne_nil _ _, List.forall_mem_cons.2 ⟨hd, hds⟩⟩, ?_⟩
  have hcifre : cifre (d :: rest) = cifre rest := List.dropWhile_cons_of_pos hd
  rw [hcifre, List.cons_append, ← heq]

theorem frazione_split (t : Text) :
    ∃ fraction, t = fraction ++ frazione t ∧
      (fraction = [] ∨ ∃ ds, fraction = '.' :: ds ∧ Digits ds) := by
  unfold frazione
  split
  next d rest =>
    split
    next hd =>
      obtain ⟨ds, hds, heq⟩ := cifre_cons hd rest
      exact ⟨'.' :: ds, by rw [List.cons_append, ← heq], .inr ⟨ds, rfl, hds⟩⟩
    next => exact ⟨[], rfl, .inl rfl⟩
  next => exact ⟨[], rfl, .inl rfl⟩

theorem piuMeno_split (t : Text) :
    ∃ plus, t = plus ++ piuMeno t ∧ (plus = [] ∨ plus = ['+'] ∨ plus = ['-']) := by
  unfold piuMeno
  split
  next => exact ⟨[], rfl, .inl rfl⟩
  next c rest =>
    split
    next hc =>
      refine ⟨[c], rfl, .inr ?_⟩
      rcases hc with rfl | rfl
      · exact .inl rfl
      · exact .inr rfl
    next => exact ⟨[], rfl, .inl rfl⟩

theorem esponente_split (t : Text) :
    ∃ exponent, t = exponent ++ esponente t ∧
      (exponent = [] ∨ ∃ e plus ds, exponent = e :: plus ++ ds ∧ (e = 'e' ∨ e = 'E') ∧
        (plus = [] ∨ plus = ['+'] ∨ plus = ['-']) ∧ Digits ds) := by
  unfold esponente
  split
  next => exact ⟨[], rfl, .inl rfl⟩
  next e rest =>
    split
    next h =>
      obtain ⟨plus, hplus, hsign⟩ := piuMeno_split rest
      obtain ⟨d, hd, hdigit⟩ := (Option.any_eq_true _ _).1 h.2
      obtain ⟨more, hmore⟩ := List.head?_eq_some_iff.1 hd
      obtain ⟨ds, hds, heq⟩ := cifre_cons hdigit more
      rw [hmore] at hplus ⊢
      refine ⟨e :: plus ++ ds, ?_, .inr ⟨e, plus, ds, rfl, h.1, hsign, hds⟩⟩
      rw [List.append_assoc, ← heq, List.cons_append, ← hplus]
    next => exact ⟨[], rfl, .inl rfl⟩

theorem integerText_parts {sign integer fraction exponent : Text}
    (hsign : sign = [] ∨ sign = ['-']) (hinteger : Decimal.AllDigits integer)
    (hfraction : fraction = [] ∨ ∃ ds, fraction = '.' :: ds ∧ Digits ds)
    (hexponent : exponent = [] ∨ ∃ e plus ds, exponent = e :: plus ++ ds ∧
      (e = 'e' ∨ e = 'E') ∧ (plus = [] ∨ plus = ['+'] ∨ plus = ['-']) ∧ Digits ds) :
    integerText (sign ++ integer ++ fraction ++ exponent) =
      if fraction = [] ∧ exponent = [] then some (sign ++ integer) else none := by
  have hplain : (sign ++ integer).any (fun c => c = '.' || c = 'e' || c = 'E') = false := by
    rw [List.any_append, Bool.or_eq_false_iff]
    constructor
    · rcases hsign with rfl | rfl <;> rfl
    · refine List.any_eq_false.2 fun c hc => ?_
      have hdigit := hinteger c hc
      simp only [Bool.or_eq_true, decide_eq_true_eq, not_or]
      refine ⟨⟨?_, ?_⟩, ?_⟩
      · rintro rfl
        exact absurd hdigit (by decide)
      · rintro rfl
        exact absurd hdigit (by decide)
      · rintro rfl
        exact absurd hdigit (by decide)
  unfold integerText
  rcases hfraction with rfl | ⟨ds, rfl, -⟩
  · rcases hexponent with rfl | ⟨e, plus, ds, rfl, he, -⟩
    · rw [List.append_nil, List.append_nil, hplain]
      rfl
    · rw [if_pos, if_neg (by simp)]
      rcases he with rfl | rfl <;> simp
  · rw [if_pos (by simp), if_neg (by simp)]

theorem allDigits_integer {digits : Text}
    (h : digits = ['0'] ∨ (Digits digits ∧ digits.head? ≠ some '0')) :
    Decimal.AllDigits digits := by
  rcases h with rfl | ⟨⟨-, h⟩, -⟩
  · exact List.forall_mem_singleton.2 rfl
  · exact h

theorem numero_sound {t rest : Text} {o : Option Text} (h : numero t = some (o, rest)) :
    ∃ raw, t = raw ++ rest ∧ IsNumber raw ∧ o = integerText raw := by
  obtain ⟨⟨digits, more⟩, hintera, heq⟩ := Option.map_eq_some_iff.1 h
  obtain ⟨ho, hrest⟩ := Prod.mk.inj heq
  obtain ⟨ht, hsign⟩ := segno_split t
  obtain ⟨hmore, hdigits⟩ := intera_split hintera
  obtain ⟨fraction, hfrazione, hfraction⟩ := frazione_split more
  obtain ⟨exponent, hesponente, hexponent⟩ := esponente_split (frazione more)
  dsimp only at ho hrest
  rw [hrest] at ho hesponente
  have hall : t = (segno t).1 ++ digits ++ fraction ++ exponent ++ rest := by
    rw [hesponente] at hfrazione
    rw [hfrazione] at hmore
    calc t = (segno t).1 ++ (segno t).2 := ht
      _ = _ := by rw [hmore]; simp only [List.append_assoc]
  refine ⟨_, hall, ⟨_, _, _, _, rfl, hsign, hdigits, hfraction, hexponent⟩, ?_⟩
  rw [integerText_parts hsign (allDigits_integer hdigits) hfraction hexponent, ← ho]
  rw [hesponente] at hfrazione
  have hlength := congrArg List.length hfrazione
  simp only [List.length_append] at hlength
  by_cases hempty : fraction = [] ∧ exponent = []
  · rw [if_pos hempty, if_pos (by rw [hempty.1, hempty.2] at hlength; simpa using hlength.symm)]
  · rw [if_neg hempty, if_neg fun hsame => hempty ?_]
    have hzero : fraction.length = 0 ∧ exponent.length = 0 := by omega
    exact ⟨List.length_eq_zero_iff.1 hzero.1, List.length_eq_zero_iff.1 hzero.2⟩

/-- What may stand behind a number, and the digits in it. -/
def Halted (rest : Text) : Prop :=
  ∀ c ∈ rest.head?, c.isDigit = false ∧ c ≠ '.' ∧ c ≠ 'e' ∧ c ≠ 'E'

theorem Ends.halted {rest : Text} (h : Ends rest) : Halted rest := by
  intro c hc
  rcases h c hc with hspace | rfl | rfl | rfl
  · simp only [isSpace, Bool.or_eq_true, decide_eq_true_eq] at hspace
    rcases hspace with ((rfl | rfl) | rfl) | rfl <;> decide
  · decide
  · decide
  · decide

theorem cifre_append {ds rest : Text} (hds : Decimal.AllDigits ds)
    (hrest : ∀ c ∈ rest.head?, c.isDigit = false) : cifre (ds ++ rest) = rest :=
  (NumberText.takeWhile_digits hds hrest).2

theorem intera_append {integer rest : Text}
    (h : integer = ['0'] ∨ (Digits integer ∧ integer.head? ≠ some '0'))
    (hrest : ∀ c ∈ rest.head?, c.isDigit = false) :
    intera (integer ++ rest) = some (integer, rest) := by
  rcases h with rfl | ⟨⟨hne, hall⟩, hhead⟩
  · rw [List.singleton_append, intera, if_pos rfl]
  · obtain ⟨c, more, rfl⟩ := List.exists_cons_of_ne_nil hne
    have hc : c ≠ '0' := fun heq => hhead (congrArg some heq)
    have hsplit := NumberText.takeWhile_digits hall hrest
    rw [List.cons_append, intera, if_neg hc, if_pos (hall c List.mem_cons_self), cifre,
      ← List.cons_append, hsplit.1, hsplit.2]

theorem frazione_append {fraction rest : Text}
    (h : fraction = [] ∨ ∃ ds, fraction = '.' :: ds ∧ Digits ds)
    (hrest : ∀ c ∈ rest.head?, c.isDigit = false ∧ c ≠ '.') :
    frazione (fraction ++ rest) = rest := by
  rcases h with rfl | ⟨ds, rfl, hne, hall⟩
  · unfold frazione
    rw [List.nil_append]
    split
    next => exact absurd rfl (hrest '.' rfl).2
    next => rfl
  · obtain ⟨d, more, rfl⟩ := List.exists_cons_of_ne_nil hne
    show (if d.isDigit = true then cifre ((d :: more) ++ rest) else _) = rest
    rw [if_pos (hall d List.mem_cons_self), cifre_append hall fun c hc => (hrest c hc).1]

theorem piuMeno_append {plus ds rest : Text}
    (h : plus = [] ∨ plus = ['+'] ∨ plus = ['-']) (hds : Digits ds) :
    piuMeno (plus ++ (ds ++ rest)) = ds ++ rest := by
  rcases h with rfl | rfl | rfl
  · obtain ⟨d, more, rfl⟩ := List.exists_cons_of_ne_nil hds.1
    have hd := hds.2 d List.mem_cons_self
    rw [List.nil_append, List.cons_append, piuMeno, if_neg]
    rintro (rfl | rfl)
    · exact absurd hd (by decide)
    · exact absurd hd (by decide)
  · rw [List.singleton_append, piuMeno, if_pos (.inl rfl)]
  · rw [List.singleton_append, piuMeno, if_pos (.inr rfl)]

theorem esponente_append {exponent rest : Text}
    (h : exponent = [] ∨ ∃ e plus ds, exponent = e :: plus ++ ds ∧ (e = 'e' ∨ e = 'E') ∧
      (plus = [] ∨ plus = ['+'] ∨ plus = ['-']) ∧ Digits ds)
    (hrest : Halted rest) : esponente (exponent ++ rest) = rest := by
  rcases h with rfl | ⟨e, plus, ds, rfl, he, hplus, hds⟩
  · cases rest with
    | nil => rfl
    | cons c rest =>
      obtain ⟨-, -, hc⟩ := hrest c rfl
      rw [List.nil_append, esponente, if_neg fun h => h.1.elim hc.1 hc.2]
  · have hhead : (ds ++ rest).head?.any Char.isDigit = true := by
      obtain ⟨d, more, rfl⟩ := List.exists_cons_of_ne_nil hds.1
      exact hds.2 d List.mem_cons_self
    rw [List.cons_append, List.cons_append, List.append_assoc, esponente,
      piuMeno_append hplus hds, if_pos ⟨he, hhead⟩, cifre_append hds.2 fun c hc => (hrest c hc).1]

theorem numero_append {raw rest : Text} (h : IsNumber raw) (hrest : Ends rest) :
    numero (raw ++ rest) = some (integerText raw, rest) := by
  obtain ⟨sign, integer, fraction, exponent, rfl, hsign, hinteger, hfraction, hexponent⟩ := h
  have hhalted := hrest.halted
  have hback : ∀ c ∈ (exponent ++ rest).head?, c.isDigit = false ∧ c ≠ '.' := by
    rcases hexponent with rfl | ⟨e, plus, ds, rfl, he, -⟩
    · exact fun c hc => ⟨(hhalted c hc).1, (hhalted c hc).2.1⟩
    · rintro c ⟨⟩
      rcases he with rfl | rfl <;> decide
  have hmiddle : ∀ c ∈ (fraction ++ (exponent ++ rest)).head?, c.isDigit = false := by
    rcases hfraction with rfl | ⟨ds, rfl, -⟩
    · exact fun c hc => (hback c hc).1
    · rintro c ⟨⟩
      rfl
  have hsegno : segno (sign ++ (integer ++ (fraction ++ (exponent ++ rest)))) =
      (sign, integer ++ (fraction ++ (exponent ++ rest))) := by
    rcases hsign with rfl | rfl
    · have hall := allDigits_integer hinteger
      have hne : integer ≠ [] := by
        rcases hinteger with rfl | ⟨⟨hne, -⟩, -⟩
        · exact List.cons_ne_nil _ _
        · exact hne
      obtain ⟨d, more, rfl⟩ := List.exists_cons_of_ne_nil hne
      have hd := hall d List.mem_cons_self
      show segno (d :: _) = _
      unfold segno
      split
      next heq =>
        rw [(List.cons.inj heq).1] at hd
        exact absurd hd (by decide)
      next => rfl
    · rfl
  have hparts := integerText_parts hsign (allDigits_integer hinteger) hfraction hexponent
  simp only [List.append_assoc] at hparts ⊢
  unfold numero
  rw [hsegno, intera_append hinteger hmiddle, Option.map_some,
    frazione_append hfraction hback, esponente_append hexponent hhalted, hparts]
  refine congrArg (fun o => some (o, rest)) ?_
  show (if rest.length = (fraction ++ (exponent ++ rest)).length then some (sign ++ integer)
    else none) = _
  by_cases hempty : fraction = [] ∧ exponent = []
  · rw [if_pos hempty, hempty.1, hempty.2]
    exact if_pos rfl
  · rw [if_neg hempty, if_neg fun hsame => hempty ?_]
    simp only [List.length_append] at hsame
    have hzero : fraction.length = 0 ∧ exponent.length = 0 := by omega
    exact ⟨List.length_eq_zero_iff.1 hzero.1, List.length_eq_zero_iff.1 hzero.2⟩

/-- The character a number begins with. -/
theorem number_front {raw : Text} (h : IsNumber raw) :
    ∃ c more, raw = c :: more ∧ (c = '-' ∨ c.isDigit = true) := by
  obtain ⟨sign, integer, fraction, exponent, rfl, hsign, hinteger, -⟩ := h
  rcases hsign with rfl | rfl
  · rcases hinteger with rfl | ⟨⟨hne, hall⟩, -⟩
    · exact ⟨'0', _, rfl, .inr rfl⟩
    · obtain ⟨d, more, rfl⟩ := List.exists_cons_of_ne_nil hne
      exact ⟨d, _, rfl, .inr (hall d List.mem_cons_self)⟩
  · exact ⟨'-', _, rfl, .inl rfl⟩

/-! ## Scalars -/

theorem letterale_append (parola : String) (rest : Text) :
    letterale parola (parola.toList ++ rest) = some rest := by
  unfold letterale
  rw [List.take_left, List.drop_left, if_pos rfl]

theorem letterale_sound {parola : String} {t rest : Text} (h : letterale parola t = some rest) :
    t = parola.toList ++ rest := by
  unfold letterale at h
  split at h
  next heq =>
    cases h
    calc t = t.take parola.toList.length ++ t.drop parola.toList.length :=
          (List.take_append_drop _ _).symm
      _ = _ := by rw [heq]
  next => cases h

theorem saltaScalare_container {c : Char} (h : c = '{' ∨ c = '[') (t : Text) :
    saltaScalare (c :: t) = some (false, c :: t) := by rw [saltaScalare, if_pos h]

theorem saltaScalare_word {raw : Text}
    (h : raw ∈ ["null".toList, "true".toList, "false".toList]) (rest : Text) :
    saltaScalare (raw ++ rest) = some (true, rest) := by
  have hword (parola : String) : (letterale parola (parola.toList ++ rest)).map (fun r => (true, r)) =
      some (true, rest) := by
    rw [letterale_append]
    rfl
  simp only [List.mem_cons, List.not_mem_nil, or_false] at h
  rcases h with rfl | rfl | rfl
  · exact hword "null"
  · exact hword "true"
  · exact hword "false"

theorem saltaScalare_number {raw rest : Text} (h : IsNumber raw) (hrest : Ends rest) :
    saltaScalare (raw ++ rest) = some (true, rest) := by
  have hnumero := numero_append h hrest
  obtain ⟨c, more, rfl, hc⟩ := number_front h
  have hopen : ¬ (c = '{' ∨ c = '[') := by
    rintro (rfl | rfl) <;> exact absurd hc (by decide)
  have hquote : c ≠ '"' := by
    rintro rfl
    exact absurd hc (by decide)
  rw [List.cons_append] at hnumero ⊢
  rw [saltaScalare, if_neg hopen, if_neg hquote, if_pos hc, hnumero]
  rfl

theorem saltaStringa_quoted {marks : List Mark} (h : ∀ m ∈ marks, m.WellFormed) (rest : Text) :
    saltaStringa (quoted marks ++ rest) = some rest := by
  unfold saltaStringa
  rw [stringa_quoted h]
  rfl

theorem saltaScalare_string {marks : List Mark} (h : ∀ m ∈ marks, m.WellFormed) (rest : Text) :
    saltaScalare (quoted marks ++ rest) = some (true, rest) := by
  have hstringa := saltaStringa_quoted h rest
  rw [quoted, List.cons_append] at hstringa ⊢
  rw [saltaScalare, if_neg (by decide), if_pos rfl, hstringa]
  rfl

theorem not_repeats_word (raw : Text) : ¬ (Value.word raw).Repeats := fun h => by cases h

theorem not_repeats_number (raw : Text) : ¬ (Value.number raw).Repeats := fun h => by cases h

theorem not_repeats_string (ps : List Nat) : ¬ (Value.string ps).Repeats := fun h => by cases h

theorem not_repeats_array_nil : ¬ (Value.array []).Repeats := by
  intro h
  cases h with
  | item hv => exact List.not_mem_nil hv

theorem not_repeats_object_nil : ¬ (Value.object []).Repeats := by
  intro h
  cases h with
  | key hkeys => exact hkeys List.nodup_nil
  | member hm => exact List.not_mem_nil hm

/-- **A scalar that is skipped is one of the grammar.** -/
theorem saltaScalare_sound {t rest : Text} (h : saltaScalare t = some (true, rest)) :
    ∃ v body, t = body ++ rest ∧ Spells (.value v) body ∧ ¬ v.Repeats := by
  unfold saltaScalare at h
  split at h
  next => cases h
  next c more =>
    have hword {parola : String}
        (hmem : parola.toList ∈ ["null".toList, "true".toList, "false".toList])
        (h : (letterale parola (c :: more)).map (fun r => (true, r)) = some (true, rest)) :
        ∃ v body, c :: more = body ++ rest ∧ Spells (.value v) body ∧ ¬ v.Repeats := by
      obtain ⟨r, hr, heq⟩ := Option.map_eq_some_iff.1 h
      cases heq
      exact ⟨.word parola.toList, parola.toList, letterale_sound hr, .word hmem,
        not_repeats_word _⟩
    split at h
    next => cases h
    next =>
    split at h
    next =>
      obtain ⟨r, hr, heq⟩ := Option.map_eq_some_iff.1 h
      cases heq
      obtain ⟨⟨ps, last⟩, hstringa, rfl⟩ := Option.map_eq_some_iff.1 hr
      obtain ⟨marks, hmarks, -, heq⟩ := stringa_sound hstringa
      exact ⟨_, _, heq, .string hmarks, not_repeats_string _⟩
    next =>
    split at h
    next =>
      obtain ⟨⟨o, r⟩, hr, heq⟩ := Option.map_eq_some_iff.1 h
      cases heq
      obtain ⟨raw, heq, hraw, -⟩ := numero_sound hr
      exact ⟨_, _, heq, .number hraw, not_repeats_number _⟩
    next =>
    split at h
    next => exact hword (by decide) h
    next =>
    split at h
    next => exact hword (by decide) h
    next =>
    split at h
    next => exact hword (by decide) h
    next => cases h

/-- The character a value begins with. -/
theorem value_front {v : Value} {body : Text} (h : Spells (.value v) body) :
    ∃ c more, body = c :: more ∧ isSpace c = false ∧ c ≠ ']' ∧ c ≠ '}' := by
  cases h with
  | word hraw =>
    simp only [List.mem_cons, List.not_mem_nil, or_false] at hraw
    rcases hraw with rfl | rfl | rfl
    · exact ⟨'n', _, rfl, by decide⟩
    · exact ⟨'t', _, rfl, by decide⟩
    · exact ⟨'f', _, rfl, by decide⟩
  | number hraw =>
    obtain ⟨c, more, rfl, hc⟩ := number_front hraw
    refine ⟨c, more, rfl, ?_, ?_, ?_⟩
    · cases hspace : isSpace c with
      | false => rfl
      | true =>
        simp only [isSpace, Bool.or_eq_true, decide_eq_true_eq] at hspace
        rcases hspace with ((rfl | rfl) | rfl) | rfl <;> exact absurd hc (by decide)
    · rintro rfl
      exact absurd hc (by decide)
    · rintro rfl
      exact absurd hc (by decide)
  | string => exact ⟨'"', _, rfl, by decide⟩
  | emptyArray => exact ⟨'[', _, rfl, by decide⟩
  | array => exact ⟨'[', _, rfl, by decide⟩
  | emptyObject => exact ⟨'{', _, rfl, by decide⟩
  | object => exact ⟨'{', _, rfl, by decide⟩

end Plenora.Core.Projjson
