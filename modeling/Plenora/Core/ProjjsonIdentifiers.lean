import Plenora.Core.ProjjsonValidation

/-!
# What a PROJJSON definition identifies

Once the document is valid, skipping a value ends where its text ends, and the walk over the
members of an object gives what a lookup of its keys gives.

    identifiers hash t = some pairs ↔
      withinSizeLimit t ∧ ∃ v, IsDocument v t ∧ ¬ v.Repeats ∧ rootPairs v = some pairs
                                                                              (identifiers_iff)
-/

namespace Plenora.Core.Projjson

open Plenora.Lib Plenora.Lib.Json Plenora.Lib.Utf8
open Plenora.Core.CrsDefinition (DefinitionText withinSizeLimit)

/-! ## Reading a value -/

/-- A text, or nothing of it where a surrogate stands alone. -/
def textOf (ps : List Nat) : DefinitionText :=
  if ∀ n ∈ ps, n.isValidChar then .unicode (ps.map Char.ofNat) else .loneSurrogates

def authorityOf : Value → Option DefinitionText
  | .string ps => some (textOf ps)
  | _ => none

/-- A string, or an integer; `-0` is `0`. -/
def codeTextOf : Value → Option DefinitionText
  | .string ps => some (textOf ps)
  | .number raw => (integerText raw).map fun raw =>
    .unicode (if raw = "-0".toList then "0".toList else raw)
  | _ => none

def keyOf (name : String) : List Nat := name.toList.map Char.toNat

def memberOf (members : List (List Nat × Value)) (name : String) : Option Value :=
  valueAt members (keyOf name)

/-- An object with an authority and a code. -/
def identifierOf : Value → Option Coppia
  | .object members =>
    ((memberOf members "authority").bind authorityOf).bind fun authority =>
      ((memberOf members "code").bind codeTextOf).map fun code => (authority, code)
  | _ => none

def entriesOf : Value → Option (List Coppia)
  | .array entries => entries.mapM identifierOf
  | _ => none

/-- The identifiers of a root: an object with `id`, with the list `ids`, or with neither. -/
def rootPairs : Value → Option (List Coppia)
  | .object members =>
    match memberOf members "id", memberOf members "ids" with
    | some id, none => (identifierOf id).map fun pair => [pair]
    | none, some ids => entriesOf ids
    | none, none => some []
    | some _, some _ => none
  | _ => none

/-! ## Texts and names -/

theorem fromU32_of_valid {n : Nat} (h : n.isValidChar) : fromU32 n = some (Char.ofNat n) := if_pos h

theorem fromU32_of_invalid {n : Nat} (h : ¬ n.isValidChar) : fromU32 n = none := if_neg h

/-- The step of `testo`. -/
def componiStep (s : Text × Bool) (n : Nat) : Text × Bool :=
  match fromU32 n with
  | some c => if s.2 then s else (s.1 ++ [c], s.2)
  | none => (s.1, true)

theorem componi_valid {ps : List Nat} (h : ∀ n ∈ ps, n.isValidChar) (done : Text) :
    ps.foldl componiStep (done, false) = (done ++ ps.map Char.ofNat, false) := by
  induction ps generalizing done with
  | nil => simp
  | cons n ps ih =>
    obtain ⟨hn, hps⟩ := List.forall_mem_cons.1 h
    have hstep : componiStep (done, false) n = (done ++ [Char.ofNat n], false) := by
      unfold componiStep
      rw [fromU32_of_valid hn]
      rfl
    rw [List.foldl_cons, hstep, ih hps, List.map_cons, List.append_assoc]
    rfl

theorem componi_lone (ps : List Nat) (done : Text) :
    (ps.foldl componiStep (done, true)).2 = true := by
  induction ps generalizing done with
  | nil => rfl
  | cons n ps ih =>
    rw [List.foldl_cons]
    unfold componiStep
    split
    · exact ih done
    · exact ih done

theorem componi_invalid {ps : List Nat} (h : ¬ ∀ n ∈ ps, n.isValidChar) (done : Text) :
    (ps.foldl componiStep (done, false)).2 = true := by
  induction ps generalizing done with
  | nil => exact absurd (fun n hn => absurd hn List.not_mem_nil) h
  | cons n ps ih =>
    rw [List.foldl_cons]
    by_cases hn : n.isValidChar
    · have hstep : componiStep (done, false) n = (done ++ [Char.ofNat n], false) := by
        unfold componiStep
        rw [fromU32_of_valid hn]
        rfl
      rw [hstep]
      exact ih (fun hps => h (List.forall_mem_cons.2 ⟨hn, hps⟩)) _
    · have hstep : componiStep (done, false) n = (done, true) := by
        unfold componiStep
        rw [fromU32_of_invalid hn]
      rw [hstep]
      exact componi_lone ps done

theorem componi_eq (ps : List Nat) : componi ps = textOf ps := by
  show (if (ps.foldl componiStep ([], false)).2 then DefinitionText.loneSurrogates
    else .unicode (ps.foldl componiStep ([], false)).1) = _
  unfold textOf
  by_cases h : ∀ n ∈ ps, n.isValidChar
  · rw [componi_valid h, if_neg (by simp), if_pos h, List.nil_append]
  · rw [componi_invalid h, if_pos rfl, if_neg h]

/-- The step of `nome_fra`. -/
def trovatoStep (s : Text × Bool) (n : Nat) : Text × Bool :=
  match fromU32 n with
  | some c => if ¬ s.2 ∧ (utf8 s.1).length < tenuti then (s.1 ++ [c], s.2) else (s.1, true)
  | none => (s.1, true)

theorem trovatoStep_done (done : Text) (n : Nat) : trovatoStep (done, true) n = (done, true) := by
  unfold trovatoStep
  split
  · exact if_neg fun h => h.1 rfl
  · rfl

theorem trovato_done (ps : List Nat) (done : Text) :
    ps.foldl trovatoStep (done, true) = (done, true) := by
  induction ps with
  | nil => rfl
  | cons n ps ih => rw [List.foldl_cons, trovatoStep_done, ih]

/-- A name that is kept is a text; one that is not is too long, or no text. -/
theorem trovato_kept (ps : List Nat) (done : Text) :
    ((∀ n ∈ ps, n.isValidChar) ∧
      ps.foldl trovatoStep (done, false) = (done ++ ps.map Char.ofNat, false)) ∨
    ((ps.foldl trovatoStep (done, false)).2 = true ∧
      ((∀ n ∈ ps, n.isValidChar) → tenuti < (utf8 (done ++ ps.map Char.ofNat)).length)) := by
  induction ps generalizing done with
  | nil =>
    refine .inl ⟨fun n hn => absurd hn List.not_mem_nil, ?_⟩
    simp
  | cons n ps ih =>
    rw [List.foldl_cons]
    by_cases hn : n.isValidChar
    · by_cases hlength : (utf8 done).length < tenuti
      · have hstep : trovatoStep (done, false) n = (done ++ [Char.ofNat n], false) := by
          unfold trovatoStep
          rw [fromU32_of_valid hn]
          exact if_pos ⟨by simp, hlength⟩
        rw [hstep]
        rcases ih (done ++ [Char.ofNat n]) with ⟨hps, hfold⟩ | ⟨hfold, hlong⟩
        · refine .inl ⟨List.forall_mem_cons.2 ⟨hn, hps⟩, ?_⟩
          rw [hfold, List.map_cons, List.append_assoc]
          rfl
        · refine .inr ⟨hfold, fun hall => ?_⟩
          have := hlong (List.forall_mem_cons.1 hall).2
          rwa [List.append_assoc] at this
      · have hstep : trovatoStep (done, false) n = (done, true) := by
          unfold trovatoStep
          rw [fromU32_of_valid hn]
          exact if_neg fun h => hlength h.2
        rw [hstep, trovato_done]
        refine .inr ⟨rfl, fun _ => ?_⟩
        rw [List.map_cons, utf8_append, List.length_append, length_utf8_cons]
        have := (Char.ofNat n).utf8Size_pos
        omega
    · have hstep : trovatoStep (done, false) n = (done, true) := by
        unfold trovatoStep
        rw [fromU32_of_invalid hn]
      rw [hstep, trovato_done]
      exact .inr ⟨rfl, fun hall => absurd (List.forall_mem_cons.1 hall).1 hn⟩

theorem map_ofNat_keyOf (name : String) : (keyOf name).map Char.ofNat = name.toList := by
  unfold keyOf
  rw [List.map_map]
  exact List.map_id'' (fun c => Char.ofNat_toNat c) _

theorem keyOf_valid (name : String) : ∀ n ∈ keyOf name, n.isValidChar := by
  intro n hn
  obtain ⟨c, -, rfl⟩ := List.mem_map.1 hn
  exact c.valid

theorem toNat_ofNat_of_valid {n : Nat} (h : n.isValidChar) : (Char.ofNat n).toNat = n := by
  rw [Char.ofNat, dif_pos h]
  rfl

theorem keyOf_of_valid {ps : List Nat} (h : ∀ n ∈ ps, n.isValidChar) (name : String) :
    name.toList = ps.map Char.ofNat ↔ ps = keyOf name := by
  constructor
  · intro heq
    unfold keyOf
    rw [heq, List.map_map]
    refine (List.map_id ps).symm.trans (List.map_congr_left fun n hn => ?_)
    exact (toNat_ofNat_of_valid (h n hn)).symm
  · rintro rfl
    exact (map_ofNat_keyOf name).symm

/-- **A name is found by its code points.** -/
theorem trovato_eq {nomi : List String} (h : ∀ nome ∈ nomi, (utf8 nome.toList).length ≤ tenuti)
    (ps : List Nat) : trovato nomi ps = nomi.findIdx? fun nome => ps = keyOf nome := by
  show (if (ps.foldl trovatoStep ([], false)).2 then none
    else nomi.findIdx? fun nome => nome.toList = (ps.foldl trovatoStep ([], false)).1) = _
  rcases trovato_kept ps [] with ⟨hvalid, hfold⟩ | ⟨hfold, hlong⟩
  · rw [hfold, if_neg (by simp), List.nil_append]
    congr 1
    funext nome
    exact decide_eq_decide.2 (keyOf_of_valid hvalid nome)
  · rw [if_pos hfold]
    symm
    rw [List.findIdx?_eq_none_iff]
    intro nome hnome
    refine decide_eq_false fun heq => ?_
    have hshort := h nome hnome
    have hlength := hlong (heq ▸ keyOf_valid nome)
    rw [heq, List.nil_append, map_ofNat_keyOf] at hlength
    omega

/-! ## Skipping -/

/-- What skipping passes over, one by one. -/
def Neutral (c : Char) : Prop := c ≠ '"' ∧ c ≠ '{' ∧ c ≠ '[' ∧ c ≠ '}' ∧ c ≠ ']'

theorem salta_neutral {c : Char} (h : Neutral c) (n : Nat) (t : Text) :
    salta n (c :: t) = salta n t := by
  obtain ⟨hquote, hbrace, hbracket, hbrace', hbracket'⟩ := h
  rw [salta, if_neg hquote, if_neg (by simp [hbrace, hbracket]),
    if_neg (by simp [hbrace', hbracket'])]

theorem salta_neutrals {text : Text} (h : ∀ c ∈ text, Neutral c) (n : Nat) (t : Text) :
    salta n (text ++ t) = salta n t := by
  induction text with
  | nil => rfl
  | cons c text ih =>
    obtain ⟨hc, htext⟩ := List.forall_mem_cons.1 h
    rw [List.cons_append, salta_neutral hc, ih htext]

theorem salta_open {c : Char} (h : c = '{' ∨ c = '[') (n : Nat) (t : Text) :
    salta n (c :: t) = salta (n + 1) t := by
  have hquote : c ≠ '"' := by
    rintro rfl
    exact absurd h (by decide)
  rw [salta, if_neg hquote, if_pos h]

theorem salta_close {c : Char} (h : c = '}' ∨ c = ']') (n : Nat) (t : Text) :
    salta (n + 2) (c :: t) = salta (n + 1) t := by
  rcases h with rfl | rfl
  · rw [salta, if_neg (by decide), if_neg (by decide), if_pos (by decide), if_neg (by omega),
      if_neg (by omega)]
    rfl
  · rw [salta, if_neg (by decide), if_neg (by decide), if_pos (by decide), if_neg (by omega),
      if_neg (by omega)]
    rfl

theorem salta_last {c : Char} (h : c = '}' ∨ c = ']') (t : Text) : salta 1 (c :: t) = some t := by
  rcases h with rfl | rfl
  · rw [salta, if_neg (by decide), if_neg (by decide), if_pos (by decide), if_neg (by omega),
      if_pos rfl]
  · rw [salta, if_neg (by decide), if_neg (by decide), if_pos (by decide), if_neg (by omega),
      if_pos rfl]

theorem salta_quoted {marks : List Mark} (h : ∀ m ∈ marks, m.WellFormed) (n : Nat) (t : Text) :
    salta n (quoted marks ++ t) = salta n t := by
  have hstringa := saltaStringa_quoted h t
  rw [quoted, List.cons_append] at hstringa ⊢
  rw [salta, if_pos rfl]
  split
  next hnone => exact absurd (hstringa.symm.trans hnone) (by simp)
  next hsome =>
    cases hstringa.symm.trans hsome
    rfl

theorem neutral_space {text : Text} (h : IsSpace text) : ∀ c ∈ text, Neutral c := by
  intro c hc
  have hspace := h c hc
  simp only [isSpace, Bool.or_eq_true, decide_eq_true_eq] at hspace
  rcases hspace with ((rfl | rfl) | rfl) | rfl <;> exact ⟨by decide, by decide, by decide,
    by decide, by decide⟩

theorem neutral_digits {text : Text} (h : Decimal.AllDigits text) : ∀ c ∈ text, Neutral c := by
  intro c hc
  have hdigit := h c hc
  have hne (d : Char) (hd : d.isDigit = false) : c ≠ d := by
    rintro rfl
    exact absurd hdigit (by simp [hd])
  exact ⟨hne _ (by decide), hne _ (by decide), hne _ (by decide), hne _ (by decide),
    hne _ (by decide)⟩

theorem neutral_cons {c : Char} (hc : Neutral c) {text : Text} (h : ∀ d ∈ text, Neutral d) :
    ∀ d ∈ c :: text, Neutral d := List.forall_mem_cons.2 ⟨hc, h⟩

theorem neutral_append {a b : Text} (ha : ∀ c ∈ a, Neutral c) (hb : ∀ c ∈ b, Neutral c) :
    ∀ c ∈ a ++ b, Neutral c := List.forall_mem_append.2 ⟨ha, hb⟩

theorem neutral_number {raw : Text} (h : IsNumber raw) : ∀ c ∈ raw, Neutral c := by
  have hmark (d : Char) (hd : d ∈ ['-', '+', '.', 'e', 'E']) : Neutral d := by
    simp only [List.mem_cons, List.not_mem_nil, or_false] at hd
    rcases hd with rfl | rfl | rfl | rfl | rfl <;> exact ⟨by decide, by decide, by decide,
      by decide, by decide⟩
  have hnil : ∀ c ∈ ([] : Text), Neutral c := fun c hc => absurd hc List.not_mem_nil
  obtain ⟨sign, integer, fraction, exponent, rfl, hsign, hinteger, hfraction, hexponent⟩ := h
  refine neutral_append (neutral_append (neutral_append ?_
    (neutral_digits (allDigits_integer hinteger))) ?_) ?_
  · rcases hsign with rfl | rfl
    · exact hnil
    · exact neutral_cons (hmark _ (by simp)) hnil
  · rcases hfraction with rfl | ⟨ds, rfl, hds⟩
    · exact hnil
    · exact neutral_cons (hmark _ (by simp)) (neutral_digits hds.2)
  · rcases hexponent with rfl | ⟨e, plus, ds, rfl, he, hplus, hds⟩
    · exact hnil
    · refine neutral_append (neutral_cons (hmark _ ?_) ?_) (neutral_digits hds.2)
      · rcases he with rfl | rfl <;> simp
      · rcases hplus with rfl | rfl | rfl
        · exact hnil
        · exact neutral_cons (hmark _ (by simp)) hnil
        · exact neutral_cons (hmark _ (by simp)) hnil

theorem neutral_word {raw : Text} (h : raw ∈ ["null".toList, "true".toList, "false".toList]) :
    ∀ c ∈ raw, Neutral c := by
  simp only [List.mem_cons, List.not_mem_nil, or_false] at h
  rcases h with rfl | rfl | rfl <;> simp [Neutral]

theorem neutral_comma : Neutral ',' := ⟨by decide, by decide, by decide, by decide, by decide⟩

theorem neutral_colon : Neutral ':' := ⟨by decide, by decide, by decide, by decide, by decide⟩

/-- **Inside a container a phrase is passed over.** -/
theorem salta_phrase {phrase : Phrase} {text : Text} (h : Spells phrase text) :
    ∀ n rest, salta (n + 1) (text ++ rest) = salta (n + 1) rest := by
  induction h with
  | word hraw => exact fun n rest => salta_neutrals (neutral_word hraw) _ rest
  | number hraw => exact fun n rest => salta_neutrals (neutral_number hraw) _ rest
  | string hmarks => exact fun n rest => salta_quoted hmarks _ rest
  | emptyArray hspaces =>
    intro n rest
    rw [List.cons_append, salta_open (.inr rfl), List.append_assoc,
      salta_neutrals (neutral_space hspaces), List.singleton_append, salta_close (.inr rfl)]
  | array _ ih =>
    intro n rest
    rw [List.cons_append, salta_open (.inr rfl), List.append_assoc, ih, List.singleton_append,
      salta_close (.inr rfl)]
  | emptyObject hspaces =>
    intro n rest
    rw [List.cons_append, salta_open (.inl rfl), List.append_assoc,
      salta_neutrals (neutral_space hspaces), List.singleton_append, salta_close (.inl rfl)]
  | object _ ih =>
    intro n rest
    rw [List.cons_append, salta_open (.inl rfl), List.append_assoc, ih, List.singleton_append,
      salta_close (.inl rfl)]
  | one hbefore _ hafter ih =>
    intro n rest
    rw [List.append_assoc, List.append_assoc, salta_neutrals (neutral_space hbefore), ih,
      salta_neutrals (neutral_space hafter)]
  | more hbefore _ hafter _ ih ihOthers =>
    intro n rest
    rw [List.append_assoc, List.append_assoc, List.append_assoc, List.cons_append,
      salta_neutrals (neutral_space hbefore), ih, salta_neutrals (neutral_space hafter),
      salta_neutral neutral_comma, ihOthers]
  | members hbefore hmarks hbetween _ ih =>
    intro n rest
    rw [List.append_assoc, List.append_assoc, List.append_assoc, List.cons_append,
      salta_neutrals (neutral_space hbefore), salta_quoted hmarks,
      salta_neutrals (neutral_space hbetween), salta_neutral neutral_colon, ih]
  | last hbefore _ hafter ih =>
    intro n rest
    rw [List.append_assoc, List.append_assoc, salta_neutrals (neutral_space hbefore), ih,
      salta_neutrals (neutral_space hafter)]
  | next hbefore _ hafter _ ih ihMembers =>
    intro n rest
    rw [List.append_assoc, List.append_assoc, List.append_assoc, List.cons_append,
      salta_neutrals (neutral_space hbefore), ih, salta_neutrals (neutral_space hafter),
      salta_neutral neutral_comma, ihMembers]

theorem saltaValore_scalare {t rest : Text} (h : saltaScalare t = some (true, rest)) :
    saltaValore t = some rest := by
  unfold saltaValore
  rw [h]
  rfl

theorem saltaValore_open {c : Char} (hc : c = '{' ∨ c = '[') (t : Text) :
    saltaValore (c :: t) = salta 1 t := by
  unfold saltaValore
  rw [saltaScalare_container hc]
  exact salta_open hc 0 t

/-- **Skipping a value ends where its text ends.** -/
theorem saltaValore_value {v : Value} {body : Text} (h : Spells (.value v) body) {rest : Text}
    (hrest : Ends rest) : saltaValore (body ++ rest) = some rest := by
  cases h with
  | word hraw => exact saltaValore_scalare (saltaScalare_word hraw rest)
  | number hraw => exact saltaValore_scalare (saltaScalare_number hraw hrest)
  | string hmarks => exact saltaValore_scalare (saltaScalare_string hmarks rest)
  | emptyArray hspaces =>
    rw [List.cons_append, saltaValore_open (.inr rfl), List.append_assoc,
      salta_neutrals (neutral_space hspaces), List.singleton_append, salta_last (.inr rfl)]
  | array hitems =>
    rw [List.cons_append, saltaValore_open (.inr rfl), List.append_assoc,
      salta_phrase hitems 0, List.singleton_append, salta_last (.inr rfl)]
  | emptyObject hspaces =>
    rw [List.cons_append, saltaValore_open (.inl rfl), List.append_assoc,
      salta_neutrals (neutral_space hspaces), List.singleton_append, salta_last (.inl rfl)]
  | object hmembers =>
    rw [List.cons_append, saltaValore_open (.inl rfl), List.append_assoc,
      salta_phrase hmembers 0, List.singleton_append, salta_last (.inl rfl)]

/-! ## The members of an object -/

/-- What the visitor does with the value of a member, text aside. -/
def Follows {σ : Type} (visita : Visita σ) (f : σ → Option Nat → Value → Option σ) : Prop :=
  ∀ s i v body rest, Spells (.value v) body → ¬ v.Repeats → Ends rest →
    visita.leggi s i (body ++ rest) = (f s i v).map fun s => (s, rest)

theorem nome_members {nomi : List String} {before between : Text} {marks : List Mark}
    (hbefore : IsSpace before) (hmarks : ∀ m ∈ marks, m.WellFormed) (hbetween : IsSpace between)
    (t : Text) :
    nome nomi (before ++ (quoted marks ++ (between ++ ':' :: t))) =
      some (trovato nomi (points marks), spazi t) := by
  have hspazi : spazi (before ++ (quoted marks ++ (between ++ ':' :: t))) =
      quoted marks ++ (between ++ ':' :: t) := by
    rw [spazi_append hbefore, quoted, List.cons_append, spazi_cons (by decide)]
  unfold nome nomeFra
  rw [hspazi, stringa_quoted hmarks]
  show (atteso ':' (spazi (between ++ ':' :: t))).map _ = _
  rw [spazi_append hbetween, spazi_cons (by decide), atteso, if_pos rfl]
  rfl

/-- What follows a value among the members. -/
def dopoMembro {σ : Type} (visita : Visita σ) (nomi : List String) (s : σ) :
    Text → Option (σ × Text)
  | [] => none
  | c :: more =>
    if c = ',' then membriDa visita nomi s more
    else if c = '}' then some (s, more)
    else none

theorem membriDa_eq {σ : Type} (visita : Visita σ) (nomi : List String) (s : σ) (t : Text) :
    membriDa visita nomi s t = (nome nomi t).bind fun r =>
      (visita.leggi s r.1 r.2).bind fun q => dopoMembro visita nomi q.1 (spazi q.2) := by
  rw [membriDa]
  split
  next hn =>
    rw [hn]
    rfl
  next i value hn =>
    rw [hn, Option.bind_some]
    split
    next hv =>
      rw [hv]
      rfl
    next s' rest hv =>
      rw [hv, Option.bind_some]
      unfold dopoMembro
      split
      next hr => rw [hr]
      next c more hr => rw [hr]

/-- The state after the members, from the first to the last. -/
def overMembers {σ : Type} (f : σ → Option Nat → Value → Option σ) (nomi : List String) (s : σ)
    (ms : List (List Nat × Value)) : Option σ :=
  ms.foldlM (fun s m => f s (trovato nomi m.1) m.2) s

/-- **The walk over the members is a fold over them.** -/
theorem membriDa_members {σ : Type} {visita : Visita σ} {f : σ → Option Nat → Value → Option σ}
    (hf : Follows visita f) {nomi : List String} {ms : List (List Nat × Value)} {text : Text}
    (h : Spells (.members ms) text) (hms : ∀ m ∈ ms, ¬ m.2.Repeats) (s : σ) (rest : Text) :
    membriDa visita nomi s (text ++ '}' :: rest) =
      (overMembers f nomi s ms).map fun s => (s, rest) := by
  induction ms generalizing text s with
  | nil => cases h
  | cons m ms ih =>
    obtain ⟨hm, hmore⟩ := List.forall_mem_cons.1 hms
    have hread {before text after more : Text} {v : Value} (hbefore : IsSpace before)
        (hv : Spells (.value v) text) (hnot : ¬ v.Repeats) (hafter : IsSpace after)
        (hends : Ends more) (s : σ) (i : Option Nat) :
        visita.leggi s i (spazi (before ++ (text ++ (after ++ more)))) =
          (f s i v).map fun s => (s, after ++ more) := by
      rw [spazi_value hbefore hv]
      exact hf s i v text _ hv hnot (ends_append hafter hends)
    cases h with
    | @members before between inside marks v _ hbefore hmarks hbetween hinside =>
      have hfold : overMembers f nomi s ((points marks, v) :: ms) =
          (f s (trovato nomi (points marks)) v).bind fun s => overMembers f nomi s ms := rfl
      have htext : before ++ (quoted marks ++ (between ++ ':' :: inside)) ++ '}' :: rest =
          before ++ (quoted marks ++ (between ++ ':' :: (inside ++ '}' :: rest))) := by simp
      rw [htext, membriDa_eq, nome_members hbefore hmarks hbetween, Option.bind_some, hfold]
      cases hinside with
      | @last spaces body after _ hspaces hv hafter =>
        have htext : spaces ++ (body ++ after) ++ '}' :: rest =
          spaces ++ (body ++ (after ++ '}' :: rest)) := by simp
        dsimp only
        rw [htext, hread hspaces hv hm hafter (ends_cons (by simp) _)]
        cases hstep : f s (trovato nomi (points marks)) v with
        | none => rfl
        | some s' =>
          show dopoMembro visita nomi s' (spazi (after ++ '}' :: rest)) = _
          rw [spazi_append hafter, spazi_cons (by decide), dopoMembro, if_neg (by decide),
            if_pos rfl]
          rfl
      | @next spaces body after others _ _ hspaces hv hafter hothers =>
        have htext : spaces ++ (body ++ (after ++ ',' :: others)) ++ '}' :: rest =
          spaces ++ (body ++ (after ++ ',' :: (others ++ '}' :: rest))) := by simp
        dsimp only
        rw [htext, hread hspaces hv hm hafter (ends_cons (by simp) _)]
        cases hstep : f s (trovato nomi (points marks)) v with
        | none => rfl
        | some s' =>
          show dopoMembro visita nomi s' (spazi (after ++ ',' :: (others ++ '}' :: rest))) = _
          rw [spazi_append hafter, spazi_cons (by decide), dopoMembro, if_pos rfl]
          exact ih hothers hmore s'

/-- An object's members, in braces. -/
theorem membri_object {σ : Type} {visita : Visita σ} {f : σ → Option Nat → Value → Option σ}
    (hf : Follows visita f) {nomi : List String} {ms : List (List Nat × Value)} {body : Text}
    (h : Spells (.value (.object ms)) body) (hnot : ¬ (Value.object ms).Repeats) (s : σ)
    (rest : Text) :
    membri visita nomi s (body ++ rest) = (overMembers f nomi s ms).map fun s => (s, rest) := by
  cases h with
  | @emptyObject spaces hspaces =>
    have htext : '{' :: (spaces ++ ['}']) ++ rest = '{' :: (spaces ++ '}' :: rest) := by simp
    rw [htext, membri, atteso, if_pos rfl, Option.bind_some, spazi_append hspaces,
      spazi_cons (by decide)]
    rfl
  | @object _ text hmembers =>
    have htext : '{' :: (text ++ ['}']) ++ rest = '{' :: (text ++ '}' :: rest) := by simp
    rw [htext, membri, atteso, if_pos rfl, Option.bind_some]
    have hfront := members_front hmembers ('}' :: rest)
    have hspazi : membriDa visita nomi s (spazi (text ++ '}' :: rest)) =
        membriDa visita nomi s (text ++ '}' :: rest) := by
      rw [membriDa_eq, membriDa_eq _ _ _ (text ++ '}' :: rest)]
      unfold nome
      rw [spazi_idem]
    split
    next more hmore =>
      rw [hmore] at hfront
      exact absurd rfl hfront
    next =>
      rw [hspazi]
      exact membriDa_members hf hmembers (fun m hm hrepeats => hnot (.member hm hrepeats)) s rest

/-- The character a value begins with tells its kind. -/
theorem value_kind {v : Value} {body : Text} (h : Spells (.value v) body) :
    ∃ c more, body = c :: more ∧ (c = '{' ↔ ∃ ms, v = .object ms) ∧
      (c = '[' ↔ ∃ vs, v = .array vs) ∧ (c = '"' ↔ ∃ ps, v = .string ps) ∧
      ((c = '-' ∨ c.isDigit = true) ↔ ∃ raw, v = .number raw) := by
  cases h with
  | word hraw =>
    simp only [List.mem_cons, List.not_mem_nil, or_false] at hraw
    rcases hraw with rfl | rfl | rfl
    · exact ⟨'n', _, rfl, by simp, by simp, by simp, by simp⟩
    · exact ⟨'t', _, rfl, by simp, by simp, by simp, by simp⟩
    · exact ⟨'f', _, rfl, by simp, by simp, by simp, by simp⟩
  | number hraw =>
    obtain ⟨c, more, rfl, hc⟩ := number_front hraw
    have hne (d : Char) (hd : ¬ (d = '-' ∨ d.isDigit = true)) : c ≠ d := by
      rintro rfl
      exact hd hc
    refine ⟨c, more, rfl, ?_, ?_, ?_, iff_of_true hc ⟨_, rfl⟩⟩
    · exact iff_of_false (hne _ (by decide)) (by simp)
    · exact iff_of_false (hne _ (by decide)) (by simp)
    · exact iff_of_false (hne _ (by decide)) (by simp)
  | string => exact ⟨'"', _, rfl, by simp, by simp, by simp, by simp⟩
  | emptyArray => exact ⟨'[', _, rfl, by simp, by simp, by simp, by simp⟩
  | array => exact ⟨'[', _, rfl, by simp, by simp, by simp, by simp⟩
  | emptyObject => exact ⟨'{', _, rfl, by simp, by simp, by simp, by simp⟩
  | object => exact ⟨'{', _, rfl, by simp, by simp, by simp, by simp⟩

/-- Only an object has members. -/
theorem membri_other {σ : Type} {visita : Visita σ} {nomi : List String} {v : Value} {body : Text}
    (h : Spells (.value v) body) (hv : ∀ ms, v ≠ .object ms) (s : σ) (rest : Text) :
    membri visita nomi s (body ++ rest) = none := by
  obtain ⟨c, more, rfl, hobject, -⟩ := value_kind h
  have hc : c ≠ '{' := fun heq => by
    obtain ⟨ms, hms⟩ := hobject.1 heq
    exact hv ms hms
  rw [membri, List.cons_append, atteso, if_neg hc]
  rfl

/-! ## Two names -/

section Slots

variable {α β : Type} (first : Value → Option α) (second : Value → Option β)

/-- A value read for one of two names, or skipped. -/
def slots (s : Option α × Option β) (i : Option Nat) (v : Value) :
    Option (Option α × Option β) :=
  match i with
  | some 0 => (first v).map fun a => (some a, s.2)
  | some _ => (second v).map fun b => (s.1, some b)
  | none => some s

/-- What a name is given among the members; `given` where it is not among them. -/
def lookedUp {γ : Type} (read : Value → Option γ) (given : Option γ) (key : List Nat)
    (ms : List (List Nat × Value)) : Option (Option γ) :=
  match valueAt ms key with
  | some v => (read v).map some
  | none => some given

theorem valueAt_cons_self (ms : List (List Nat × Value)) (key : List Nat) (v : Value) :
    valueAt ((key, v) :: ms) key = some v := by simp [valueAt]

theorem valueAt_cons_ne {m : List Nat × Value} {key : List Nat} (h : m.1 ≠ key)
    (ms : List (List Nat × Value)) : valueAt (m :: ms) key = valueAt ms key := by
  simp [valueAt, h]

theorem valueAt_none {ms : List (List Nat × Value)} {key : List Nat}
    (h : key ∉ ms.map Prod.fst) : valueAt ms key = none := by
  unfold valueAt
  rw [Option.map_eq_none_iff, List.find?_eq_none]
  intro m hm heq
  exact h (List.mem_map.2 ⟨m, hm, of_decide_eq_true heq⟩)

theorem lookedUp_self {γ : Type} (read : Value → Option γ) (given : Option γ) (key : List Nat)
    (v : Value) (ms : List (List Nat × Value)) (h : key ∉ ms.map Prod.fst) :
    lookedUp read given key ((key, v) :: ms) =
      (read v).bind fun x => lookedUp read (some x) key ms := by
  unfold lookedUp
  rw [valueAt_cons_self, valueAt_none h]
  cases hread : read v with
  | none => simp [hread]
  | some x => simp [hread]

theorem lookedUp_ne {γ : Type} (read : Value → Option γ) (given : Option γ) {key : List Nat}
    {m : List Nat × Value} (h : m.1 ≠ key) (ms : List (List Nat × Value)) :
    lookedUp read given key (m :: ms) = lookedUp read given key ms := by
  unfold lookedUp
  rw [valueAt_cons_ne h]

/-- **Over distinct keys the fold gives what the two lookups give.** -/
theorem overMembers_slots {name other : String} (hne : keyOf name ≠ keyOf other)
    (hname : (utf8 name.toList).length ≤ tenuti) (hother : (utf8 other.toList).length ≤ tenuti)
    {ms : List (List Nat × Value)} (hms : (ms.map Prod.fst).Nodup) (s : Option α × Option β) :
    overMembers (slots first second) [name, other] s ms =
      (lookedUp first s.1 (keyOf name) ms).bind fun a =>
        (lookedUp second s.2 (keyOf other) ms).map fun b => (a, b) := by
  induction ms generalizing s with
  | nil => rfl
  | cons m ms ih =>
    obtain ⟨key, v⟩ := m
    rw [List.map_cons, List.nodup_cons] at hms
    obtain ⟨hkey, hnodup⟩ := hms
    dsimp only at hkey
    have hfold : overMembers (slots first second) [name, other] s ((key, v) :: ms) =
        (slots first second s (trovato [name, other] key) v).bind fun s =>
          overMembers (slots first second) [name, other] s ms := rfl
    have hfind : trovato [name, other] key =
        if key = keyOf name then some 0 else if key = keyOf other then some 1 else none := by
      rw [trovato_eq (by simp [hname, hother])]
      simp [List.findIdx?_cons]
    rw [hfold, hfind]
    by_cases hfirst : key = keyOf name
    · subst hfirst
      rw [if_pos rfl, lookedUp_self _ _ _ _ _ hkey, lookedUp_ne _ _ hne]
      show ((first v).map fun a => (some a, s.2)).bind _ = _
      cases first v with
      | none => rfl
      | some a => exact ih hnodup (some a, s.2)
    · rw [if_neg hfirst, lookedUp_ne _ _ hfirst]
      by_cases hsecond : key = keyOf other
      · subst hsecond
        rw [if_pos rfl, lookedUp_self _ _ _ _ _ hkey]
        show ((second v).map fun b => (s.1, some b)).bind _ = _
        cases second v with
        | none =>
          cases lookedUp first s.1 (keyOf name) ms with
          | none => rfl
          | some a => rfl
        | some b => exact ih hnodup (s.1, some b)
      · rw [if_neg hsecond, lookedUp_ne _ _ hsecond]
        exact ih hnodup s

end Slots

theorem nodup_of_not_repeats {ms : List (List Nat × Value)} (h : ¬ (Value.object ms).Repeats) :
    (ms.map Prod.fst).Nodup := by
  by_contra hnodup
  exact h (.key hnodup)

/-! ## Identifiers -/

theorem testo_string {ps : List Nat} {body : Text} (h : Spells (.value (.string ps)) body)
    (rest : Text) : testo (body ++ rest) = some (textOf ps, rest) := by
  cases h with
  | string hmarks =>
    unfold testo
    rw [stringa_quoted hmarks, ← componi_eq]
    rfl

theorem leggiCodice_eq {v : Value} {body : Text} (h : Spells (.value v) body) {rest : Text}
    (hrest : Ends rest) :
    leggiCodice (body ++ rest) = (codeTextOf v).map fun d => (d, rest) := by
  obtain ⟨c, more, hbody, -, -, hstring, hnumber⟩ := value_kind h
  have hleggi : leggiCodice (body ++ rest) =
      if c = '"' then testo (body ++ rest)
      else if c = '-' ∨ c.isDigit then
        (numero (body ++ rest)).bind fun r =>
          r.1.map fun raw => (.unicode (if raw = "-0".toList then "0".toList else raw), r.2)
      else none := by
    rw [hbody]
    rfl
  rw [hleggi]
  by_cases hquote : c = '"'
  · obtain ⟨ps, rfl⟩ := hstring.1 hquote
    rw [if_pos hquote, testo_string h]
    rfl
  · rw [if_neg hquote]
    by_cases hdigit : c = '-' ∨ c.isDigit = true
    · obtain ⟨raw, rfl⟩ := hnumber.1 hdigit
      rw [if_pos hdigit]
      cases h with
      | number hraw =>
        rw [numero_append hraw hrest, Option.bind_some, codeTextOf, Option.map_map]
        rfl
    · rw [if_neg hdigit]
      cases v with
      | string ps => exact absurd (hstring.2 ⟨ps, rfl⟩) hquote
      | number raw => exact absurd (hnumber.2 ⟨raw, rfl⟩) hdigit
      | word => rfl
      | array => rfl
      | object => rfl

theorem follows_membro : Follows visitaMembro (slots authorityOf codeTextOf) := by
  intro s i v body rest h _ hrest
  show leggiMembro s i (body ++ rest) = _
  rcases i with _ | _ | i
  · show (saltaValore (body ++ rest)).map _ = _
    rw [saltaValore_value h hrest]
    rfl
  · show (if _ then _ else _) = ((authorityOf v).map fun a => (some a, s.2)).map _
    obtain ⟨c, more, hbody, -, -, hstring, -⟩ := value_kind h
    have hhead : (body ++ rest).head? = some c := by rw [hbody]; rfl
    rw [hhead]
    by_cases hquote : c = '"'
    · obtain ⟨ps, rfl⟩ := hstring.1 hquote
      rw [if_pos (congrArg some hquote), testo_string h]
      rfl
    · rw [if_neg fun heq => hquote (Option.some.inj heq)]
      cases v with
      | string ps => exact absurd (hstring.2 ⟨ps, rfl⟩) hquote
      | number => rfl
      | word => rfl
      | array => rfl
      | object => rfl
  · show (leggiCodice (body ++ rest)).map _ = ((codeTextOf v).map fun d => (s.1, some d)).map _
    rw [leggiCodice_eq h hrest, Option.map_map, Option.map_map]
    rfl

/-- **An identifier is read as its value says.** -/
theorem identificatore_eq {v : Value} {body : Text} (h : Spells (.value v) body)
    (hnot : ¬ v.Repeats) (rest : Text) :
    identificatore (body ++ rest) = (identifierOf v).map fun pair => (pair, rest) := by
  unfold identificatore
  cases v with
  | object ms =>
    rw [membri_object follows_membro h hnot,
      overMembers_slots _ _ (by decide) (by decide) (by decide) (nodup_of_not_repeats hnot)]
    show _ = (((memberOf ms "authority").bind authorityOf).bind fun authority =>
      ((memberOf ms "code").bind codeTextOf).map fun code => (authority, code)).map _
    unfold lookedUp memberOf
    cases valueAt ms (keyOf "authority") with
    | none =>
      cases valueAt ms (keyOf "code") with
      | none => rfl
      | some w => cases hw : codeTextOf w <;> simp [hw]
    | some u =>
      cases hu : authorityOf u with
      | none => simp [hu]
      | some a =>
        cases valueAt ms (keyOf "code") with
        | none => simp [hu]
        | some w => cases hw : codeTextOf w <;> simp [hu, hw]
  | word => rw [membri_other h (by simp)]; rfl
  | number => rw [membri_other h (by simp)]; rfl
  | string => rw [membri_other h (by simp)]; rfl
  | array => rw [membri_other h (by simp)]; rfl

/-- The last bracket of a list, or a comma and the entries behind it. -/
def dopoVoce (voce : Coppia) : Text → Option (List Coppia × Text)
  | [] => none
  | c :: more =>
    if c = ',' then (voci more).map fun r => (voce :: r.1, r.2)
    else if c = ']' then some ([voce], more)
    else none

theorem voci_eq (t : Text) :
    voci t = (identificatore (spazi t)).bind fun r => dopoVoce r.1 (spazi r.2) := by
  rw [voci]
  split
  next hi =>
    rw [hi]
    rfl
  next voce rest hi =>
    rw [hi, Option.bind_some]
    unfold dopoVoce
    split
    next hr => rw [hr]
    next c more hr => rw [hr]

theorem voci_items {vs : List Value} {text : Text} (h : Spells (.items vs) text)
    (hvs : ∀ v ∈ vs, ¬ v.Repeats) (rest : Text) :
    voci (text ++ ']' :: rest) = (vs.mapM identifierOf).map fun all => (all, rest) := by
  induction vs generalizing text with
  | nil => cases h
  | cons v vs ih =>
    obtain ⟨hv, hmore⟩ := List.forall_mem_cons.1 hvs
    rw [voci_eq, List.mapM_cons]
    cases h with
    | @one before text after _ hbefore hbody hafter =>
      have htext : before ++ (text ++ after) ++ ']' :: rest =
        before ++ (text ++ (after ++ ']' :: rest)) := by simp
      rw [htext, spazi_value hbefore hbody, identificatore_eq hbody hv]
      cases identifierOf v with
      | none => rfl
      | some pair =>
        show dopoVoce pair (spazi (after ++ ']' :: rest)) = _
        rw [spazi_append hafter, spazi_cons (by decide), dopoVoce, if_neg (by decide), if_pos rfl]
        rfl
    | @more before text after others _ _ hbefore hbody hafter hothers =>
      have htext : before ++ (text ++ (after ++ ',' :: others)) ++ ']' :: rest =
        before ++ (text ++ (after ++ ',' :: (others ++ ']' :: rest))) := by simp
      rw [htext, spazi_value hbefore hbody, identificatore_eq hbody hv]
      cases identifierOf v with
      | none => rfl
      | some pair =>
        show dopoVoce pair (spazi (after ++ ',' :: (others ++ ']' :: rest))) = _
        rw [spazi_append hafter, spazi_cons (by decide), dopoVoce, if_pos rfl, ih hothers hmore]
        cases vs.mapM identifierOf with
        | none => rfl
        | some all => rfl

/-- **The list is read as its value says.** -/
theorem lista_eq {v : Value} {body : Text} (h : Spells (.value v) body) (hnot : ¬ v.Repeats)
    (rest : Text) : lista (body ++ rest) = (entriesOf v).map fun all => (all, rest) := by
  have hother (hv : ∀ vs, v ≠ .array vs) : lista (body ++ rest) = none := by
    obtain ⟨c, more, rfl, -, harray, -⟩ := value_kind h
    have hc : c ≠ '[' := fun heq => by
      obtain ⟨vs, hvs⟩ := harray.1 heq
      exact hv vs hvs
    rw [lista, List.cons_append, atteso, if_neg hc]
    rfl
  cases h with
  | @emptyArray spaces hspaces =>
    have htext : '[' :: (spaces ++ [']']) ++ rest = '[' :: (spaces ++ ']' :: rest) := by simp
    rw [htext, lista, atteso, if_pos rfl, Option.bind_some, spazi_append hspaces,
      spazi_cons (by decide)]
    rfl
  | @array vs text hitems =>
    have htext : '[' :: (text ++ [']']) ++ rest = '[' :: (text ++ ']' :: rest) := by simp
    rw [htext, lista, atteso, if_pos rfl, Option.bind_some]
    have hfront := items_front hitems (']' :: rest)
    have hspazi : voci (spazi (text ++ ']' :: rest)) = voci (text ++ ']' :: rest) := by
      rw [voci_eq, voci_eq (text ++ ']' :: rest), spazi_idem]
    split
    next more hmore =>
      rw [hmore] at hfront
      exact absurd rfl hfront
    next =>
      rw [hspazi]
      exact voci_items hitems (fun v hv hrepeats => hnot (.item hv hrepeats)) rest
  | word => exact hother (by simp)
  | number => exact hother (by simp)
  | string => exact hother (by simp)
  | emptyObject => exact hother (by simp)
  | object => exact hother (by simp)

theorem follows_radice : Follows visitaRadice (slots identifierOf entriesOf) := by
  intro s i v body rest h hnot hrest
  show leggiRadice s i (body ++ rest) = _
  rcases i with _ | _ | i
  · show (saltaValore (body ++ rest)).map _ = _
    rw [saltaValore_value h hrest]
    rfl
  · show (identificatore (body ++ rest)).map _ = ((identifierOf v).map fun a => (some a, s.2)).map _
    rw [identificatore_eq h hnot, Option.map_map, Option.map_map]
    rfl
  · show (lista (body ++ rest)).map _ = ((entriesOf v).map fun b => (s.1, some b)).map _
    rw [lista_eq h hnot, Option.map_map, Option.map_map]
    rfl

/-- **The walk over the root gives what its value gives.** -/
theorem radice_eq {v : Value} {t : Text} (h : IsDocument v t) (hnot : ¬ v.Repeats) :
    radice t = rootPairs v := by
  obtain ⟨before, body, after, rfl, hbefore, hbody, -⟩ := h
  unfold radice
  rw [spazi_value hbefore hbody]
  cases v with
  | object ms =>
    rw [membri_object follows_radice hbody hnot,
      overMembers_slots _ _ (by decide) (by decide) (by decide) (nodup_of_not_repeats hnot)]
    have hroot : rootPairs (.object ms) =
        match valueAt ms (keyOf "id"), valueAt ms (keyOf "ids") with
        | some id, none => (identifierOf id).map fun pair => [pair]
        | none, some ids => entriesOf ids
        | none, none => some []
        | some _, some _ => none := rfl
    rw [hroot]
    unfold lookedUp
    cases valueAt ms (keyOf "id") with
    | none =>
      cases valueAt ms (keyOf "ids") with
      | none => rfl
      | some w => cases hw : entriesOf w <;> simp [hw]
    | some u =>
      cases valueAt ms (keyOf "ids") with
      | none => cases hu : identifierOf u <;> simp [hu]
      | some w => cases hu : identifierOf u <;> cases hw : entriesOf w <;> simp [hu, hw]
  | word => rw [membri_other hbody (by simp)]; rfl
  | number => rw [membri_other hbody (by simp)]; rfl
  | string => rw [membri_other hbody (by simp)]; rfl
  | array => rw [membri_other hbody (by simp)]; rfl

/-- **The identifiers are those of the document, when its size, its grammar and its keys allow a
reading, whatever the hash.** -/
theorem identifiers_iff (hash : List Nat → UInt64) (t : Text) (pairs : List Coppia) :
    identifiers hash t = some pairs ↔
      withinSizeLimit t ∧ ∃ v, IsDocument v t ∧ ¬ v.Repeats ∧ rootPairs v = some pairs := by
  unfold identifiers
  by_cases hsize : withinSizeLimit t
  · rw [if_neg fun h => h hsize]
    constructor
    · intro h
      obtain ⟨⟨⟩, hvalida, hradice⟩ := Option.bind_eq_some_iff.1 h
      obtain ⟨v, hdocument, hnot⟩ := (valida_iff t).1 hvalida
      exact ⟨hsize, v, hdocument, hnot, (radice_eq hdocument hnot).symm.trans hradice⟩
    · rintro ⟨-, v, hdocument, hnot, hpairs⟩
      rw [(valida_iff t).2 ⟨v, hdocument, hnot⟩, Option.bind_some, radice_eq hdocument hnot, hpairs]
  · rw [if_pos hsize]
    exact iff_of_false (by simp) fun h => hsize h.1

end Plenora.Core.Projjson
