import Plenora.Lib.JsonText

/-!
# Reading a JSON string

The inside of a string literal is read piece by piece, and the end of a literal is the first
quote that no backslash escapes.

    ReadsLiterals fromStr                                                       (fromStr_spec)
    literalEnd false text = some (body, rest) → text = body ++ '"' :: rest      (literalEnd_sound)
-/

namespace Plenora.Lib.Json

/-! ## Definitions -/

/-- What a reader of string literals must give: the decoded pieces, or nothing. -/
def ReadsLiterals (fromStr : Text → Option Text) : Prop :=
  ∀ body s, fromStr ('"' :: body ++ ['"']) = some s ↔
    ∃ pieces, (∀ p ∈ pieces, Piece.WellFormed p) ∧ body = pieces.flatMap Piece.text ∧
      s = decode pieces

/-- The low surrogate after the high one. -/
def readLow (high : Text) : Text → Option (Piece × Text)
  | '\\' :: 'u' :: more =>
    (hexNumber (more.take 4)).bind fun low =>
      if (more.take 4).length = 4 ∧ 0xDC00 ≤ low ∧ low < 0xE000 then
        some (.pair high (more.take 4), more.drop 4)
      else none
  | _ => none

/-- The code after `\u`. -/
def readCode (text : Text) : Option (Piece × Text) :=
  (hexNumber (text.take 4)).bind fun n =>
    if (text.take 4).length ≠ 4 then none
    else if n < 0xD800 ∨ 0xE000 ≤ n then some (.code (text.take 4), text.drop 4)
    else if 0xDC00 ≤ n then none
    else readLow (text.take 4) (text.drop 4)

def readEscape : Text → Option (Piece × Text)
  | [] => none
  | e :: rest =>
    if e = 'u' then readCode rest
    else if (escaped e).isSome then some (.escape e, rest) else none

def readPiece : Text → Option (Piece × Text)
  | [] => none
  | c :: rest =>
    if c = '\\' then readEscape rest
    else if c = '"' ∨ c.toNat < 0x20 then none else some (.char c, rest)

/-- The pieces of a text, at most `fuel` of them. -/
def readPieces : Nat → Text → Option Text
  | _, [] => some []
  | 0, _ :: _ => none
  | fuel + 1, c :: text =>
    (readPiece (c :: text)).bind fun (p, rest) => (readPieces fuel rest).map (p.decode :: ·)

/-- A literal with its quotes. -/
def fromStr : Text → Option Text
  | '"' :: rest =>
    if rest.getLast? = some '"' then readPieces rest.dropLast.length rest.dropLast else none
  | _ => none

/-- The text up to the first quote that is not escaped, and the text after that quote. -/
def literalEnd : Bool → Text → Option (Text × Text)
  | _, [] => none
  | true, c :: rest => (literalEnd false rest).map fun (body, rest) => (c :: body, rest)
  | false, c :: rest =>
    if c = '"' then some ([], rest)
    else (literalEnd (c = '\\') rest).map fun (body, rest) => (c :: body, rest)

/-! ## One piece -/

theorem hexNumber_take {digits rest : Text} (hlength : digits.length = 4) :
    (digits ++ rest).take 4 = digits ∧ (digits ++ rest).drop 4 = rest := by
  rw [← hlength]
  exact ⟨List.take_left, List.drop_left⟩

theorem readLow_spec {high text rest : Text} {p : Piece} :
    readLow high text = some (p, rest) ↔
      ∃ low n, p = .pair high low ∧ IsCode low n ∧ 0xDC00 ≤ n ∧ n < 0xE000 ∧
        text = '\\' :: 'u' :: low ++ rest := by
  constructor
  · intro h
    unfold readLow at h
    split at h
    next more =>
      obtain ⟨n, hn, h⟩ := Option.bind_eq_some_iff.1 h
      split at h
      next hrange =>
        cases h
        refine ⟨more.take 4, n, rfl, ⟨hrange.1, hn⟩, hrange.2.1, hrange.2.2, ?_⟩
        rw [List.cons_append, List.cons_append, List.take_append_drop]
      next => cases h
    next => cases h
  · rintro ⟨low, n, rfl, ⟨hlength, hn⟩, hlo, hhi, rfl⟩
    obtain ⟨htake, hdrop⟩ := @hexNumber_take _ rest hlength
    rw [List.cons_append, List.cons_append, readLow, htake, hdrop, hn, Option.bind_some,
      if_pos ⟨hlength, hlo, hhi⟩]

theorem readCode_spec {text rest : Text} {p : Piece} :
    readCode text = some (p, rest) ↔
      (∃ digits, p = .code digits ∧ p.WellFormed ∧ text = digits ++ rest) ∨
      ∃ high low, p = .pair high low ∧ p.WellFormed ∧
        text = high ++ '\\' :: 'u' :: low ++ rest := by
  constructor
  · intro h
    unfold readCode at h
    obtain ⟨n, hn, h⟩ := Option.bind_eq_some_iff.1 h
    split at h
    next => cases h
    next hlength =>
    rw [not_not] at hlength
    split at h
    next hrange =>
      cases h
      exact .inl ⟨_, rfl, ⟨n, ⟨hlength, hn⟩, hrange⟩, (List.take_append_drop 4 text).symm⟩
    next hrange =>
    split at h
    next => cases h
    next hlow =>
      obtain ⟨low, m, rfl, hcode, hlo, hhi, hrest⟩ := readLow_spec.1 h
      refine .inr ⟨_, low, rfl, ⟨n, m, ⟨hlength, hn⟩, hcode, by omega, by omega, hlo, hhi⟩, ?_⟩
      rw [List.append_assoc, ← hrest, List.take_append_drop]
  · rintro (⟨digits, rfl, ⟨n, ⟨hlength, hn⟩, hrange⟩, rfl⟩ |
      ⟨high, low, rfl, ⟨n, m, ⟨hlength, hn⟩, hcode, hhigh, hhigh', hlo, hhi⟩, rfl⟩)
    · obtain ⟨htake, hdrop⟩ := @hexNumber_take _ rest hlength
      unfold readCode
      rw [htake, hdrop, hn, Option.bind_some, if_neg (not_not.2 hlength), if_pos hrange]
    · obtain ⟨htake, hdrop⟩ := @hexNumber_take _ ('\\' :: 'u' :: low ++ rest) hlength
      unfold readCode
      rw [List.append_assoc, htake, hdrop, hn, Option.bind_some, if_neg (not_not.2 hlength),
        if_neg (by omega), if_neg (by omega)]
      exact readLow_spec.2 ⟨low, m, rfl, hcode, hlo, hhi, rfl⟩

theorem escaped_u : escaped 'u' = none := by decide

/-- **One piece is read exactly when the text begins with it.** -/
theorem readPiece_spec {text rest : Text} {p : Piece} :
    readPiece text = some (p, rest) ↔ p.WellFormed ∧ text = p.text ++ rest := by
  constructor
  · intro h
    cases text with
    | nil => cases h
    | cons c text =>
      rw [readPiece] at h
      split at h
      next hc =>
        subst hc
        cases text with
        | nil => cases h
        | cons e text =>
          rw [readEscape] at h
          split at h
          next he =>
            subst he
            rcases readCode_spec.1 h with ⟨digits, rfl, hp, rfl⟩ | ⟨high, low, rfl, hp, rfl⟩
            · exact ⟨hp, rfl⟩
            · refine ⟨hp, ?_⟩
              simp [Piece.text]
          next =>
            split at h
            next hsome =>
              cases h
              exact ⟨Option.isSome_iff_exists.1 hsome, rfl⟩
            next => cases h
      next hc =>
        split at h
        next => cases h
        next hplain =>
          cases h
          rw [not_or, Nat.not_lt] at hplain
          exact ⟨⟨hplain.1, hc, hplain.2⟩, rfl⟩
  · rintro ⟨hp, rfl⟩
    cases p with
    | char c =>
      obtain ⟨hquote, hback, hspace⟩ := hp
      show (if c = '\\' then _ else if c = '"' ∨ c.toNat < 0x20 then none else _) = _
      rw [if_neg hback, if_neg (by rw [not_or]; exact ⟨hquote, by omega⟩)]
      rfl
    | escape e =>
      obtain ⟨c, hc⟩ := hp
      have he : e ≠ 'u' := by
        rintro rfl
        rw [escaped_u] at hc
        cases hc
      show (if e = 'u' then _ else if (escaped e).isSome then _ else none) = _
      rw [if_neg he, if_pos (by rw [hc]; rfl)]
      rfl
    | code digits =>
      exact readCode_spec.2 (.inl ⟨digits, rfl, hp, rfl⟩)
    | pair high low =>
      refine readCode_spec.2 (.inr ⟨high, low, rfl, hp, ?_⟩)
      simp

theorem Piece.text_ne_nil (p : Piece) : p.text ≠ [] := by
  cases p <;> simp [Piece.text]

/-! ## All pieces -/

theorem readPieces_sound {fuel : Nat} {text s : Text} (h : readPieces fuel text = some s) :
    ∃ pieces, (∀ p ∈ pieces, Piece.WellFormed p) ∧ text = pieces.flatMap Piece.text ∧
      s = decode pieces := by
  induction fuel generalizing text s with
  | zero =>
    cases text with
    | nil =>
      cases h
      exact ⟨[], fun p hp => absurd hp List.not_mem_nil, rfl, rfl⟩
    | cons c text => cases h
  | succ fuel ih =>
    cases text with
    | nil =>
      cases h
      exact ⟨[], fun p hp => absurd hp List.not_mem_nil, rfl, rfl⟩
    | cons c text =>
      obtain ⟨⟨p, rest⟩, hp, h⟩ := Option.bind_eq_some_iff.1 h
      obtain ⟨s', hs', rfl⟩ := Option.map_eq_some_iff.1 h
      obtain ⟨hwell, htext⟩ := readPiece_spec.1 hp
      obtain ⟨pieces, hpieces, rfl, rfl⟩ := ih hs'
      exact ⟨p :: pieces, List.forall_mem_cons.2 ⟨hwell, hpieces⟩, htext, rfl⟩

theorem readPieces_complete {pieces : List Piece} (hpieces : ∀ p ∈ pieces, p.WellFormed)
    {fuel : Nat} (hfuel : (pieces.flatMap Piece.text).length ≤ fuel) :
    readPieces fuel (pieces.flatMap Piece.text) = some (decode pieces) := by
  induction pieces generalizing fuel with
  | nil => cases fuel <;> rfl
  | cons p pieces ih =>
    obtain ⟨hp, hpieces⟩ := List.forall_mem_cons.1 hpieces
    rw [List.flatMap_cons] at hfuel ⊢
    have hread : readPiece (p.text ++ pieces.flatMap Piece.text) = some (p, _) :=
      readPiece_spec.2 ⟨hp, rfl⟩
    cases htext : p.text with
    | nil => exact absurd htext p.text_ne_nil
    | cons c text =>
      rw [htext] at hread hfuel
      rw [List.length_append, List.length_cons] at hfuel
      cases fuel with
      | zero => omega
      | succ fuel =>
        rw [List.cons_append] at hread ⊢
        rw [readPieces, hread, Option.bind_some]
        show (readPieces fuel (pieces.flatMap Piece.text)).map (p.decode :: ·) = _
        rw [ih hpieces (by omega)]
        rfl

/-- **The reader gives the decoded pieces of a literal and nothing of another text.** -/
theorem fromStr_spec : ReadsLiterals fromStr := by
  intro body s
  have hlast : (body ++ ['"']).getLast? = some '"' := List.getLast?_concat
  have hdrop : (body ++ ['"']).dropLast = body := List.dropLast_concat
  have hunfold : fromStr ('"' :: body ++ ['"']) = readPieces body.length body := by
    rw [List.cons_append, fromStr, if_pos hlast, hdrop]
  rw [hunfold]
  constructor
  · exact readPieces_sound
  · rintro ⟨pieces, hpieces, rfl, rfl⟩
    exact readPieces_complete hpieces (Nat.le_refl _)

/-! ## The end of a literal -/

theorem literalEnd_sound {isEscaped : Bool} {text body rest : Text}
    (h : literalEnd isEscaped text = some (body, rest)) : text = body ++ '"' :: rest := by
  induction text generalizing isEscaped body with
  | nil => cases isEscaped <;> cases h
  | cons c text ih =>
    cases isEscaped with
    | true =>
      obtain ⟨⟨body', rest'⟩, hrec, heq⟩ := Option.map_eq_some_iff.1 h
      cases heq
      rw [ih hrec]
      rfl
    | false =>
      rw [literalEnd] at h
      split at h
      next hc =>
        cases h
        rw [hc]
        rfl
      next =>
        obtain ⟨⟨body', rest'⟩, hrec, heq⟩ := Option.map_eq_some_iff.1 h
        cases heq
        rw [ih hrec]
        rfl

theorem hexNumber_digits {digits : Text} {n : Nat} (h : hexNumber digits = some n) :
    ∀ c ∈ digits, c ≠ '"' ∧ c ≠ '\\' := by
  have hall (m : Nat) : (digits.foldlM (fun n c => (hexDigit c).map fun d => 16 * n + d) m).isSome →
      ∀ c ∈ digits, (hexDigit c).isSome := by
    clear h
    induction digits generalizing m with
    | nil =>
      intro _ c hc
      exact absurd hc List.not_mem_nil
    | cons c digits ih =>
      intro h
      rw [List.foldlM_cons] at h
      cases hd : hexDigit c with
      | none =>
        rw [hd] at h
        cases h
      | some d =>
        rw [hd] at h
        exact List.forall_mem_cons.2 ⟨by rw [hd]; rfl, ih _ h⟩
  intro c hc
  have hsome := hall 0 (by show (hexNumber digits).isSome; rw [h]; rfl) c hc
  constructor
  · rintro rfl
    revert hsome
    decide
  · rintro rfl
    revert hsome
    decide

end Plenora.Lib.Json
