import Mathlib

/-!
# PostgreSQL's lexical rules

`step` reads one token off the front of a text, or blank space and comments; `lex` reads the
whole text.  A dollar-quoted literal runs to the first occurrence of the delimiter that opened
it:

    D ∉ C, C does not end with D without its last `$`
      → dollarBody D (C ++ D ++ r) = some (C, r)                     (dollarBody_append)
    D ∉ C, C = P ++ D without its last `$`
      → dollarBody D (C ++ D ++ r) = some (P, …)                     (dollarBody_straddle)
    Run l ts l' → lex l = (lex l').map (ts ++ ·)                     (lex_of_run)
-/

namespace Plenora.Lib.PostgresLexer

/-! ## Tokens -/

inductive Token where
  | word (text : List Char)
  | quotedIdentifier (text : List Char)
  | string (text : List Char)
  | dollar (delimiter content : List Char)
  | parameter (digits : List Char)
  | number (text : List Char)
  | symbol (char : Char)
  deriving DecidableEq

def isSpace (c : Char) : Bool :=
  c = ' ' || c = '\t' || c = '\n' || c = '\r' || c = '\x0b' || c = '\x0c'

/-- A letter, an underscore or a character outside ASCII. -/
def isWordStart (c : Char) : Bool := c.isAlpha || c = '_' || c.toNat ≥ 128

def isTagChar (c : Char) : Bool := isWordStart c || c.isDigit
def isWordChar (c : Char) : Bool := isTagChar c || c = '$'

/-! ## Literals and comments -/

/-- Up to the closing quote, a doubled one standing for itself. -/
def quotedBody (quote : Char) : List Char → Option (List Char × List Char)
  | [] => none
  | c :: rest =>
    if c ≠ quote then (quotedBody quote rest).map fun (body, r) => (c :: body, r)
    else match rest with
      | d :: rest' =>
        if d = quote then (quotedBody quote rest').map fun (body, r) => (quote :: body, r)
        else some ([], d :: rest')
      | [] => some ([], [])

/-- Up to the closing quote of a literal in which a backslash escapes what follows. -/
def escapedBody : List Char → Option (List Char × List Char)
  | [] => none
  | '\\' :: c :: rest => (escapedBody rest).map fun (body, r) => ('\\' :: c :: body, r)
  | '\'' :: '\'' :: rest => (escapedBody rest).map fun (body, r) => ('\'' :: body, r)
  | '\'' :: rest => some ([], rest)
  | c :: rest => (escapedBody rest).map fun (body, r) => (c :: body, r)

/-- What follows a block comment; comments nest. -/
def blockComment : Nat → List Char → Option (List Char)
  | _, [] => none
  | 0, '*' :: '/' :: rest => some rest
  | depth + 1, '*' :: '/' :: rest => blockComment depth rest
  | depth, '/' :: '*' :: rest => blockComment (depth + 1) rest
  | depth, _ :: rest => blockComment depth rest

/-- The delimiter a dollar opens, and what follows it. -/
def dollarOpen (rest : List Char) : Option (List Char × List Char) :=
  let tag := rest.takeWhile isTagChar
  match rest.dropWhile isTagChar with
  | '$' :: after => if tag.head?.all isWordStart then some ('$' :: tag ++ ['$'], after) else none
  | _ => none

/-- Up to the first occurrence of the delimiter. -/
def dollarBody (delimiter : List Char) : List Char → Option (List Char × List Char)
  | [] => none
  | c :: rest =>
    if delimiter <+: c :: rest then some ([], (c :: rest).drop delimiter.length)
    else (dollarBody delimiter rest).map fun (body, r) => (c :: body, r)

/-! ## The lexer -/

/-- A literal whose body is read. -/
def literal (kind : List Char → Token) (body : Option (List Char × List Char)) :
    Option (Option Token × List Char) :=
  body.map fun r => (some (kind r.1), r.2)

def word (c : Char) (rest : List Char) : Option Token × List Char :=
  (some (.word (c :: rest.takeWhile isWordChar)), rest.dropWhile isWordChar)

/-- A literal that a letter prefixes, or a word. -/
def stepWord (c : Char) (rest : List Char) : Option (Option Token × List Char) :=
  match rest with
  | '\'' :: body =>
    if c ∈ ['e', 'E'] then literal .string (escapedBody body)
    else if c ∈ ['b', 'B', 'x', 'X', 'n', 'N'] then literal .string (quotedBody '\'' body)
    else some (word c rest)
  | '&' :: '\'' :: body =>
    if c ∈ ['u', 'U'] then literal .string (quotedBody '\'' body) else some (word c rest)
  | '&' :: '"' :: body =>
    if c ∈ ['u', 'U'] then literal .quotedIdentifier (quotedBody '"' body)
    else some (word c rest)
  | rest => some (word c rest)

/-- A parameter, a dollar-quoted literal, or the dollar itself. -/
def stepDollar (rest : List Char) : Option (Option Token × List Char) :=
  if rest.head?.any Char.isDigit then
    some (some (.parameter (rest.takeWhile Char.isDigit)), rest.dropWhile Char.isDigit)
  else match dollarOpen rest with
    | some (delimiter, after) => literal (.dollar delimiter) (dollarBody delimiter after)
    | none => some (some (.symbol '$'), rest)

/-- One token, or none for blank space and comments, and what follows; `none` at the end of
the text and on a literal or comment that does not close.  A number runs on over the letters
after it: an exponent, a radix, or junk. -/
def step : List Char → Option (Option Token × List Char)
  | [] => none
  | '-' :: '-' :: rest => some (none, rest.dropWhile fun c => c ≠ '\n' && c ≠ '\r')
  | '/' :: '*' :: rest => (blockComment 0 rest).map (none, ·)
  | c :: rest =>
    if c = '\'' then literal .string (quotedBody '\'' rest)
    else if c = '"' then literal .quotedIdentifier (quotedBody '"' rest)
    else if c = '$' then stepDollar rest
    else if isSpace c then some (none, rest)
    else if c.isDigit then
      some (some (.number (c :: rest.takeWhile isTagChar)), rest.dropWhile isTagChar)
    else if isWordStart c then stepWord c rest
    else some (some (.symbol c), rest)

def lexWithin : Nat → List Char → Option (List Token)
  | _, [] => some []
  | 0, _ :: _ => none
  | fuel + 1, c :: text => do
    let (token, rest) ← step (c :: text)
    let tokens ← lexWithin fuel rest
    some (token.toList ++ tokens)

/-- The tokens of a text; every step reads at least one character. -/
def lex (text : List Char) : Option (List Token) := lexWithin text.length text

/-! ## Every step reads -/

theorem quotedBody_length {quote : Char} {l body r : List Char}
    (h : quotedBody quote l = some (body, r)) : r.length < l.length := by
  induction hn : l.length using Nat.strong_induction_on generalizing l body r with
  | _ n ih =>
    cases l with
    | nil => simp [quotedBody] at h
    | cons c rest =>
      subst hn
      rw [quotedBody.eq_def] at h
      dsimp only at h
      split at h
      next hc =>
        obtain ⟨⟨body', r'⟩, hb, heq⟩ := Option.map_eq_some_iff.1 h
        cases heq
        have := ih rest.length (by simp) hb rfl
        simp only [List.length_cons]
        omega
      next hc =>
        cases rest with
        | nil =>
          cases h
          simp
        | cons d rest =>
          dsimp only at h
          split at h
          next hd =>
            obtain ⟨⟨body', r'⟩, hb, heq⟩ := Option.map_eq_some_iff.1 h
            cases heq
            have := ih rest.length (by simp only [List.length_cons]; omega) hb rfl
            simp only [List.length_cons]
            omega
          next hd =>
            cases h
            simp

theorem escapedBody_length {l : List Char} :
    ∀ {body r}, escapedBody l = some (body, r) → r.length < l.length := by
  induction l using escapedBody.induct with
  | case1 =>
    intro body r h
    simp [escapedBody] at h
  | case2 c rest ih =>
    intro body r h
    rw [escapedBody] at h
    obtain ⟨⟨body', r'⟩, hb, heq⟩ := Option.map_eq_some_iff.1 h
    cases heq
    have := ih hb
    simp only [List.length_cons]
    omega
  | case3 rest ih =>
    intro body r h
    rw [escapedBody] at h
    obtain ⟨⟨body', r'⟩, hb, heq⟩ := Option.map_eq_some_iff.1 h
    cases heq
    have := ih hb
    simp only [List.length_cons]
    omega
  | case4 rest hne =>
    intro body r h
    rw [escapedBody.eq_4 _ hne] at h
    cases h
    simp
  | case5 c rest h₁ h₂ h₃ ih =>
    intro body r h
    rw [escapedBody.eq_5 _ _ h₁ h₂ h₃] at h
    obtain ⟨⟨body', r'⟩, hb, heq⟩ := Option.map_eq_some_iff.1 h
    cases heq
    have := ih hb
    simp only [List.length_cons]
    omega

theorem blockComment_length {depth : Nat} {l : List Char} :
    ∀ {r}, blockComment depth l = some r → r.length < l.length := by
  induction depth, l using blockComment.induct with
  | case1 =>
    intro r h
    simp [blockComment] at h
  | case2 rest =>
    intro r h
    simp only [blockComment, Option.some.injEq] at h
    subst h
    simp
  | case3 depth rest ih =>
    intro r h
    rw [blockComment] at h
    have := ih h
    simp only [List.length_cons]
    omega
  | case4 depth rest ih =>
    intro r h
    rw [blockComment] at h
    have := ih h
    simp only [List.length_cons]
    omega
  | case5 depth c rest h₁ h₂ h₃ ih =>
    intro r h
    rw [blockComment.eq_5 _ _ _ h₃ h₁ h₂] at h
    have := ih h
    simp only [List.length_cons]
    omega

theorem dollarBody_length {delimiter l : List Char} (hd : delimiter ≠ []) :
    ∀ {body r}, dollarBody delimiter l = some (body, r) → r.length < l.length := by
  induction l with
  | nil =>
    intro body r h
    simp [dollarBody] at h
  | cons c rest ih =>
    intro body r h
    rw [dollarBody] at h
    split at h
    next =>
      cases h
      have := List.length_pos_of_ne_nil hd
      rw [List.length_drop, List.length_cons]
      omega
    next =>
      obtain ⟨⟨body', r'⟩, hb, heq⟩ := Option.map_eq_some_iff.1 h
      cases heq
      have := ih hb
      rw [List.length_cons]
      omega

theorem dollarOpen_spec {rest delimiter after : List Char}
    (h : dollarOpen rest = some (delimiter, after)) :
    delimiter ≠ [] ∧ after.length < rest.length := by
  unfold dollarOpen at h
  dsimp only at h
  split at h
  next tail hdrop =>
    split at h
    next =>
      cases h
      refine ⟨by simp, ?_⟩
      have := congrArg List.length hdrop
      have := (List.dropWhile_suffix isTagChar (l := rest)).length_le
      simp_all
    next => contradiction
  next => contradiction

theorem length_dropWhile_le (p : Char → Bool) (l : List Char) :
    (l.dropWhile p).length ≤ l.length :=
  (List.dropWhile_suffix p).length_le

theorem literal_eq_some {kind : List Char → Token} {o : Option (List Char × List Char)}
    {token : Option Token} {r : List Char} :
    literal kind o = some (token, r) ↔ ∃ body, o = some (body, r) ∧ token = some (kind body) := by
  unfold literal
  cases o with
  | none => simp
  | some p =>
    obtain ⟨body, r'⟩ := p
    simp only [Option.map_some, Option.some.injEq, Prod.mk.injEq]
    constructor
    · rintro ⟨rfl, rfl⟩
      exact ⟨body, ⟨rfl, rfl⟩, rfl⟩
    · rintro ⟨_, ⟨rfl, rfl⟩, rfl⟩
      exact ⟨rfl, rfl⟩

theorem stepWord_length {c : Char} {rest r : List Char} {token : Option Token}
    (h : stepWord c rest = some (token, r)) : r.length ≤ rest.length := by
  have hword {rest : List Char} (h : some (word c rest) = some (token, r)) :
      r.length ≤ rest.length := by
    cases h
    exact length_dropWhile_le _ _
  unfold stepWord at h
  split at h
  next body =>
    split at h
    next =>
      obtain ⟨b, hb, -⟩ := literal_eq_some.1 h
      have := escapedBody_length hb
      simp only [List.length_cons]
      omega
    next =>
    split at h
    next =>
      obtain ⟨b, hb, -⟩ := literal_eq_some.1 h
      have := quotedBody_length hb
      simp only [List.length_cons]
      omega
    next => exact hword h
  next body =>
    split at h
    next =>
      obtain ⟨b, hb, -⟩ := literal_eq_some.1 h
      have := quotedBody_length hb
      simp only [List.length_cons]
      omega
    next => exact hword h
  next body =>
    split at h
    next =>
      obtain ⟨b, hb, -⟩ := literal_eq_some.1 h
      have := quotedBody_length hb
      simp only [List.length_cons]
      omega
    next => exact hword h
  next => exact hword h

theorem stepDollar_length {rest r : List Char} {token : Option Token}
    (h : stepDollar rest = some (token, r)) : r.length ≤ rest.length := by
  unfold stepDollar at h
  split at h
  next =>
    cases h
    exact length_dropWhile_le _ _
  next =>
    split at h
    next delimiter after hopen =>
      obtain ⟨hne, hlt⟩ := dollarOpen_spec hopen
      obtain ⟨b, hb, -⟩ := literal_eq_some.1 h
      have := dollarBody_length hne hb
      omega
    next =>
      cases h
      exact Nat.le_refl _

theorem step_length {l r : List Char} {token : Option Token} (h : step l = some (token, r)) :
    r.length < l.length := by
  unfold step at h
  split at h
  next => contradiction
  next rest =>
    cases h
    have := length_dropWhile_le (fun c => c ≠ '\n' && c ≠ '\r') rest
    simp only [List.length_cons]
    omega
  next rest =>
    obtain ⟨r', hr, heq⟩ := Option.map_eq_some_iff.1 h
    cases heq
    have := blockComment_length hr
    simp only [List.length_cons]
    omega
  next c rest _ _ =>
    rw [List.length_cons, Nat.lt_succ_iff]
    split at h
    next =>
      obtain ⟨b, hb, -⟩ := literal_eq_some.1 h
      exact Nat.le_of_lt (quotedBody_length hb)
    next =>
    split at h
    next =>
      obtain ⟨b, hb, -⟩ := literal_eq_some.1 h
      exact Nat.le_of_lt (quotedBody_length hb)
    next =>
    split at h
    next => exact stepDollar_length h
    next =>
    split at h
    next =>
      cases h
      exact Nat.le_refl _
    next =>
    split at h
    next =>
      cases h
      exact length_dropWhile_le _ _
    next =>
    split at h
    next => exact stepWord_length h
    next =>
      cases h
      exact Nat.le_refl _

/-- The fuel of `lex` is enough. -/
theorem lexWithin_of_le : ∀ fuel text, text.length ≤ fuel → lexWithin fuel text = lex text := by
  intro fuel
  induction fuel using Nat.strong_induction_on with
  | _ fuel ih =>
    intro text hle
    unfold lex
    cases text with
    | nil => cases fuel <;> rfl
    | cons c rest =>
      obtain ⟨n, rfl⟩ : ∃ n, fuel = n + 1 := ⟨fuel - 1, by rw [List.length_cons] at hle; omega⟩
      rw [List.length_cons, lexWithin, lexWithin]
      cases hs : step (c :: rest) with
      | none => rfl
      | some p =>
        have hlt : p.2.length < (c :: rest).length := step_length hs
        rw [List.length_cons] at hlt hle
        show (lexWithin n p.2 >>= fun tokens => some (p.1.toList ++ tokens)) =
          (lexWithin rest.length p.2 >>= fun tokens => some (p.1.toList ++ tokens))
        by_cases hn : rest.length = n
        · rw [hn]
        · rw [ih n (by omega) p.2 (by omega), ih rest.length (by omega) p.2 (by omega)]

theorem lex_of_step {l r : List Char} {token : Option Token} (h : step l = some (token, r)) :
    lex l = (lex r).map (token.toList ++ ·) := by
  cases l with
  | nil => contradiction
  | cons c rest =>
    have hlt := step_length h
    rw [List.length_cons] at hlt
    rw [← lexWithin_of_le rest.length r (by omega)]
    unfold lex
    rw [List.length_cons, lexWithin, h]
    show (lexWithin rest.length r >>= fun tokens => some (token.toList ++ tokens)) = _
    cases lexWithin rest.length r <;> rfl

/-! ## Runs -/

/-- Steps from one text to what is left of it. -/
inductive Run : List Char → List Token → List Char → Prop where
  | refl (l : List Char) : Run l [] l
  | step {l r r' : List Char} {token : Option Token} {tokens : List Token}
      (h : step l = some (token, r)) (run : Run r tokens r') : Run l (token.toList ++ tokens) r'

theorem Run.trans {l r r' : List Char} {ts us : List Token} (h : Run l ts r) (h' : Run r us r') :
    Run l (ts ++ us) r' := by
  induction h with
  | refl => exact h'
  | step hs _ ih =>
    rw [List.append_assoc]
    exact .step hs (ih h')

theorem lex_of_run {l r : List Char} {tokens : List Token} (h : Run l tokens r) :
    lex l = (lex r).map (tokens ++ ·) := by
  induction h with
  | refl l => simp
  | step hs _ ih =>
    rw [lex_of_step hs, ih, Option.map_map]
    congr 1
    funext us
    simp

/-! ## Dollar quoting -/

section DollarQuoting

variable {tag : List Char} (htag : '$' ∉ tag)

include htag

theorem eq_of_append_dollar {l r : List Char} (h : tag ++ ['$'] = l ++ '$' :: r) : l = tag := by
  induction tag generalizing l with
  | nil =>
    cases l with
    | nil => rfl
    | cons c l => simp at h
  | cons c tag ih =>
    rw [List.mem_cons, not_or] at htag
    cases l with
    | nil =>
      rw [List.cons_append, List.nil_append, List.cons.injEq] at h
      exact absurd h.1.symm htag.1
    | cons d l =>
      rw [List.cons_append, List.cons_append, List.cons.injEq] at h
      rw [← h.1, ih htag.2 h.2]

/-- An occurrence of the delimiter that starts in the text before it and does not fit there
leaves only the last `$` to the delimiter. -/
theorem eq_of_straddle {l r : List Char} (hl : l ≠ []) (hfree : ¬ '$' :: tag ++ ['$'] <:+: l)
    (h : '$' :: tag ++ ['$'] <+: l ++ ('$' :: tag ++ ['$'] ++ r)) : l = '$' :: tag := by
  obtain ⟨t, ht⟩ := h
  rcases List.append_eq_append_iff.1 ht with ⟨a, ha, -⟩ | ⟨c, hc, hrest⟩
  · -- the text goes on from the delimiter's end
    cases a with
    | nil =>
      exact absurd (by rw [ha, List.append_nil]) hfree
    | cons x a =>
      exact absurd ⟨[], x :: a, by rw [ha]; simp⟩ hfree
  · cases c with
    | nil => exact absurd (by rw [hc, List.append_nil]) hfree
    | cons x c =>
      have hx : x = '$' := by
        simp only [List.cons_append, List.cons.injEq] at hrest
        exact hrest.1.symm
      subst hx
      obtain ⟨y, l, rfl⟩ := List.exists_cons_of_ne_nil hl
      simp only [List.cons_append, List.cons.injEq] at hc
      rw [← hc.1, eq_of_append_dollar htag hc.2]

/-- **The literal is the text, unless the text ends with all but the delimiter's last `$`.** -/
theorem dollarBody_append (r : List Char) : ∀ {text : List Char},
    ¬ '$' :: tag ++ ['$'] <:+: text → ¬ '$' :: tag <:+ text →
    dollarBody ('$' :: tag ++ ['$']) (text ++ ('$' :: tag ++ ['$'] ++ r)) = some (text, r) := by
  intro text
  induction text with
  | nil =>
    intro _ _
    rw [List.nil_append]
    simp [dollarBody]
  | cons c text ih =>
    intro hfree hend
    have hhere : ¬ '$' :: tag ++ ['$'] <+: c :: (text ++ ('$' :: tag ++ ['$'] ++ r)) := by
      intro h
      have := eq_of_straddle htag (List.cons_ne_nil c text) hfree h
      exact hend ⟨[], this.symm⟩
    have hrest := ih (fun h => hfree (h.trans (List.suffix_cons c text).isInfix))
      (fun h => hend (h.trans (List.suffix_cons c text)))
    show dollarBody _ (c :: (text ++ ('$' :: tag ++ ['$'] ++ r))) = _
    rw [dollarBody, if_neg hhere, hrest]
    rfl

/-- In that case the literal closes on it. -/
theorem dollarBody_straddle (r : List Char) : ∀ {text : List Char},
    ¬ '$' :: tag ++ ['$'] <:+: text ++ '$' :: tag →
    dollarBody ('$' :: tag ++ ['$']) (text ++ '$' :: tag ++ ('$' :: tag ++ ['$'] ++ r)) =
      some (text, tag ++ '$' :: r) := by
  intro text
  induction text with
  | nil =>
    intro _
    have heq : ([] ++ '$' :: tag ++ ('$' :: tag ++ ['$'] ++ r) : List Char) =
        '$' :: tag ++ ['$'] ++ (tag ++ '$' :: r) := by simp
    rw [heq]
    simp only [List.cons_append]
    rw [dollarBody, if_pos ⟨tag ++ '$' :: r, by simp⟩]
    simp
  | cons c text ih =>
    intro hfree
    have hhere : ¬ '$' :: tag ++ ['$'] <+:
        c :: (text ++ '$' :: tag ++ ('$' :: tag ++ ['$'] ++ r)) := by
      intro h
      have := congrArg List.length
        (eq_of_straddle htag (List.cons_ne_nil c (text ++ '$' :: tag)) hfree h)
      simp only [List.length_cons, List.length_append] at this
      omega
    have hrest := ih fun h =>
      hfree (h.trans (List.suffix_cons c (text ++ '$' :: tag)).isInfix)
    show dollarBody _ (c :: (text ++ '$' :: tag ++ ('$' :: tag ++ ['$'] ++ r))) = _
    rw [dollarBody, if_neg hhere, hrest]
    rfl

end DollarQuoting

end Plenora.Lib.PostgresLexer
