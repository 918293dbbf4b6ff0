import Plenora.Lib.Decimal
import Plenora.Lib.Doubling
import Plenora.Lib.Transducer

/-!
# Cypher's lexical rules

Names are words, or anything between backticks where a backtick is written twice; parameters begin
with `$`; comments run from `//` to the end of the line or from the opening to the closing mark.

    lex (quoted name ++ rest) = .name name :: lex rest                        (lex_quoted)
    lex (quoted name ++ rest) = .name name :: … → name has no backtick        (name_of_lex)
    Alone text t → lex (text ++ ' ' :: rest) = t :: lex rest                  (lex_alone)
-/

namespace Plenora.Lib.CypherLexer

open Transducer

/-! ## Tokens -/

inductive Token where
  | keyword (word : List Char)
  | name (text : List Char)
  | parameter (name : List Char)
  | integer (value : Nat)
  | string (text : List Char)
  | symbol (text : List Char)
  deriving DecidableEq, Repr

def isSpace (c : Char) : Bool :=
  c = ' ' || c = '\t' || c = '\n' || c = '\r' || c = '\x0b' || c = '\x0c'

def isStart (c : Char) : Bool := c.isAlpha || c = '_' || 128 ≤ c.toNat

def isContinued (c : Char) : Bool := isStart c || c.isDigit || c = '$'

def isSymbol (c : Char) : Bool := "()[]{},.:;+-*%^|?".toList.contains c

/-- The symbols that may be the first letter of a longer one, or of a comment. -/
def isOpening (c : Char) : Bool := c = '/' || c = '=' || c = '<' || c = '>'

def isPair (c d : Char) : Bool :=
  (c = '=' && d = '~') || (c = '<' && (d = '>' || d = '=')) || (c = '>' && d = '=')

def reserved : List (List Char) :=
  ["ALL", "ANALYZE", "AND", "AS", "ASC", "ASCENDING", "BY", "CALL", "CASE", "COALESCE", "CONTAINS",
    "CREATE", "DELETE", "DESC", "DESCENDING", "DETACH", "DISTINCT", "ELSE", "END", "ENDS", "EXISTS",
    "EXPLAIN", "FALSE", "IN", "IS", "LIMIT", "MATCH", "MERGE", "NOT", "NULL", "OPTIONAL", "OR",
    "ORDER", "REMOVE", "RETURN", "SET", "SKIP", "STARTS", "THEN", "TRUE", "UNION", "UNWIND",
    "WHEN", "WHERE", "WITH", "XOR", "YIELD"].map String.toList

/-- A word is a keyword whatever its case, or a name. -/
def wordToken (word : List Char) : Token :=
  if word.map Char.toUpper ∈ reserved then .keyword (word.map Char.toUpper) else .name word

/-! ## The machine -/

/-- What the letters since the last token may become. -/
inductive Mode where
  | blank
  | word (text : List Char)
  | dollar
  | parameter (name : List Char)
  | integer (digits : List Char)
  | symbol (first : Char)
  | lineComment
  | blockComment (star : Bool)
  | quoted (text : List Char)
  | tick (text : List Char)
  | string (quote : Char) (escaped : Bool) (text : List Char)
  deriving DecidableEq

/-- The first letter behind a token. -/
def begins (c : Char) : Option (List Token × Mode) :=
  if isSpace c then some ([], .blank)
  else if isStart c then some ([], .word [c])
  else if c.isDigit then some ([], .integer [c])
  else if c = '$' then some ([], .dollar)
  else if c = '\x60' then some ([], .quoted [])
  else if c = '\'' ∨ c = '"' then some ([], .string c false [])
  else if isOpening c then some ([], .symbol c)
  else if isSymbol c then some ([.symbol [c]], .blank)
  else none

def step : Mode → Char → Option (List Token × Mode)
  | .blank, c => begins c
  | .word w, c =>
    if isContinued c then some ([], .word (w ++ [c])) else before [wordToken w] (begins c)
  | .dollar, c => if isStart c then some ([], .parameter [c]) else none
  | .parameter p, c =>
    if isContinued c then some ([], .parameter (p ++ [c])) else before [.parameter p] (begins c)
  | .integer ds, c =>
    if c.isDigit then some ([], .integer (ds ++ [c]))
    else before [.integer (Decimal.value ds)] (begins c)
  | .symbol s, c =>
    if s = '/' ∧ c = '/' then some ([], .lineComment)
    else if s = '/' ∧ c = '*' then some ([], .blockComment false)
    else if isPair s c then some ([.symbol [s, c]], .blank)
    else before [.symbol [s]] (begins c)
  | .lineComment, c => some ([], if c = '\n' ∨ c = '\r' then .blank else .lineComment)
  | .blockComment star, c =>
    some ([], if star ∧ c = '/' then .blank else .blockComment (c = '*'))
  | .quoted text, c => some ([], if c = '\x60' then .tick text else .quoted (text ++ [c]))
  | .tick text, c =>
    if c = '\x60' then some ([], .quoted (text ++ [c]))
    else if text = [] then none
    else before [.name text] (begins c)
  | .string q escaped text, c =>
    if escaped then some ([], .string q false (text ++ [c]))
    else if c = '\\' then some ([], .string q true text)
    else if c = q then some ([.string text], .blank)
    else some ([], .string q false (text ++ [c]))

/-- What the end of the text completes. -/
def finish : Mode → Option (List Token)
  | .blank | .lineComment => some []
  | .word w => some [wordToken w]
  | .parameter p => some [.parameter p]
  | .integer ds => some [.integer (Decimal.value ds)]
  | .symbol s => some [.symbol [s]]
  | .tick text => if text = [] then none else some [.name text]
  | .dollar | .blockComment _ | .quoted _ | .string _ _ _ => none

abbrev runs (m : Mode) (text : List Char) : Option (List Token × Mode) := run step m text

abbrev reads (m : Mode) (text : List Char) : Option (List Token) := read step finish m text

/-- The tokens of a text. -/
def lex (text : List Char) : Option (List Token) := reads .blank text

/-- A text that is one token, whatever comes behind a blank. -/
def Alone (text : List Char) (t : Token) : Prop :=
  runs .blank (text ++ [' ']) = some ([t], .blank)

/-- A name between backticks, as it stands. -/
def quoted (name : List Char) : List Char := '\x60' :: (name ++ ['\x60'])

/-- A name that a parameter may have. -/
def IsParameterName (name : List Char) : Prop :=
  ∃ c rest, name = c :: rest ∧ isStart c = true ∧ ∀ d ∈ rest, isContinued d = true

/-! ## Reading tokens -/

@[simp] theorem lex_nil : lex [] = some [] := rfl

theorem lex_cons {c : Char} {tokens : List Token} {m : Mode} (h : begins c = some (tokens, m))
    (rest : List Char) : lex (c :: rest) = (reads m rest).map (tokens ++ ·) :=
  read_append (l := [c]) (by rw [run_cons (show step .blank c = _ from h)]; simp [before]) rest

theorem lex_space {c : Char} (h : isSpace c = true) (rest : List Char) :
    lex (c :: rest) = lex rest := by
  rw [lex_cons (if_pos h)]
  show (lex rest).map _ = _
  simp

/-- A token that the next letter does not continue. -/
theorem reads_pending {m : Mode} {tokens : List Token} {rest : List Char}
    (hfinish : finish m = some tokens)
    (hstep : ∀ c ∈ rest.head?, step m c = before tokens (begins c)) :
    reads m rest = (lex rest).map (tokens ++ ·) := by
  cases rest with
  | nil =>
    show (some (([] : List Token), m)).bind _ = _
    rw [Option.bind_some, hfinish]
    simp
  | cons c rest =>
    have hc := hstep c rfl
    cases hbegins : begins c with
    | none =>
      rw [hbegins] at hc
      unfold reads lex reads Transducer.read
      rw [run_cons_none hc, run_cons_none (show step .blank c = none from hbegins)]
      rfl
    | some r =>
      rw [hbegins] at hc
      have hone : run step m [c] = some (tokens ++ r.1, r.2) := by
        rw [run_cons (show step m c = some (tokens ++ r.1, r.2) from hc)]
        simp [before]
      rw [lex_cons (show begins c = some (r.1, r.2) from hbegins)]
      show read step finish m ([c] ++ rest) = _
      rw [read_append hone, Option.map_map]
      congr 1
      funext l
      exact List.append_assoc _ _ _

theorem runs_word {w : List Char} (rest : List Char) (h : ∀ c ∈ rest, isContinued c = true) :
    runs (.word w) rest = some ([], .word (w ++ rest)) := by
  induction rest generalizing w with
  | nil => rw [List.append_nil]; rfl
  | cons c rest ih =>
    have hc : step (.word w) c = some ([], .word (w ++ [c])) :=
      if_pos (h c List.mem_cons_self)
    rw [runs, run_cons hc, ← runs, ih (fun d hd => h d (List.mem_cons_of_mem c hd))]
    simp [before]

theorem runs_parameter {p : List Char} (rest : List Char) (h : ∀ c ∈ rest, isContinued c = true) :
    runs (.parameter p) rest = some ([], .parameter (p ++ rest)) := by
  induction rest generalizing p with
  | nil => rw [List.append_nil]; rfl
  | cons c rest ih =>
    have hc : step (.parameter p) c = some ([], .parameter (p ++ [c])) :=
      if_pos (h c List.mem_cons_self)
    rw [runs, run_cons hc, ← runs, ih (fun d hd => h d (List.mem_cons_of_mem c hd))]
    simp [before]

theorem runs_integer {ds : List Char} (rest : List Char) (h : Decimal.AllDigits rest) :
    runs (.integer ds) rest = some ([], .integer (ds ++ rest)) := by
  induction rest generalizing ds with
  | nil => rw [List.append_nil]; rfl
  | cons c rest ih =>
    have hc : step (.integer ds) c = some ([], .integer (ds ++ [c])) :=
      if_pos (h c List.mem_cons_self)
    rw [runs, run_cons hc, ← runs, ih (fun d hd => h d (List.mem_cons_of_mem c hd))]
    simp [before]

theorem runs_quoted {text : List Char} (rest : List Char) (h : '\x60' ∉ rest) :
    runs (.quoted text) rest = some ([], .quoted (text ++ rest)) := by
  induction rest generalizing text with
  | nil => rw [List.append_nil]; rfl
  | cons c rest ih =>
    rw [List.mem_cons, not_or] at h
    have hc : step (.quoted text) c = some ([], .quoted (text ++ [c])) := by
      show some (([] : List Token), if c = '\x60' then _ else _) = _
      rw [if_neg (Ne.symm h.1)]
    rw [runs, run_cons hc, ← runs, ih h.2]
    simp [before]

/-! ## What a piece of text is read as -/

/-- A letter that ends a word, a parameter, a number and a quoted name. -/
def Ends (rest : List Char) : Prop :=
  ∀ c ∈ rest.head?, isContinued c = false ∧ c.isDigit = false ∧ c ≠ '\x60'

theorem ends_nil : Ends [] := fun _ hc => by cases hc

theorem ends_cons {c : Char} {rest : List Char}
    (h : isContinued c = false ∧ c.isDigit = false ∧ c ≠ '\x60') : Ends (c :: rest) :=
  fun _ hd => by cases hd; exact h

theorem lex_symbol {c : Char} (h : begins c = some ([.symbol [c]], .blank)) (rest : List Char) :
    lex (c :: rest) = (lex rest).map (.symbol [c] :: ·) :=
  lex_cons h rest

/-- A token whose letters put out nothing until the letter behind it comes. -/
theorem lex_token {c : Char} {text rest : List Char} {start m : Mode} {t : Token}
    (hc : begins c = some ([], start)) (htext : runs start text = some ([], m))
    (hfinish : finish m = some [t]) (hstep : ∀ d ∈ rest.head?, step m d = before [t] (begins d)) :
    lex (c :: text ++ rest) = (lex rest).map (t :: ·) := by
  rw [List.cons_append, lex_cons hc, reads, read_append htext, ← reads, reads_pending hfinish hstep]
  cases lex rest <;> rfl

theorem lex_word {c : Char} {w rest : List Char} (hc : begins c = some ([], .word [c]))
    (hw : ∀ d ∈ w, isContinued d = true) (hrest : Ends rest) :
    lex (c :: w ++ rest) = (lex rest).map (wordToken (c :: w) :: ·) := by
  refine lex_token hc (runs_word w hw) rfl fun d hd => ?_
  exact if_neg (by rw [(hrest d hd).1]; exact Bool.false_ne_true)

theorem lex_integer {c : Char} {ds rest : List Char} (hc : begins c = some ([], .integer [c]))
    (hds : Decimal.AllDigits ds) (hrest : Ends rest) :
    lex (c :: ds ++ rest) = (lex rest).map (.integer (Decimal.value (c :: ds)) :: ·) := by
  refine lex_token hc (runs_integer ds hds) rfl fun d hd => ?_
  exact if_neg (by rw [(hrest d hd).2.1]; exact Bool.false_ne_true)

theorem lex_parameter {name rest : List Char} (h : IsParameterName name) (hrest : Ends rest) :
    lex ('$' :: name ++ rest) = (lex rest).map (.parameter name :: ·) := by
  obtain ⟨c, p, rfl, hc, hp⟩ := h
  have hstart : runs .dollar (c :: p) = some ([], .parameter (c :: p)) := by
    rw [runs, run_cons (show step .dollar c = some ([], .parameter [c]) from if_pos hc),
      ← runs, runs_parameter p hp]
    rfl
  refine lex_token rfl hstart rfl fun d hd => ?_
  exact if_neg (by rw [(hrest d hd).1]; exact Bool.false_ne_true)

theorem begins_tick : begins '\x60' = some ([], .quoted []) := by decide

theorem lex_quoted {name rest : List Char} (hne : name ≠ []) (hname : '\x60' ∉ name)
    (hrest : Ends rest) : lex (quoted name ++ rest) = (lex rest).map (.name name :: ·) := by
  have hquoted : runs (.quoted []) (name ++ ['\x60']) = some ([], .tick name) := by
    rw [runs, run_append (runs_quoted name hname)]
    rfl
  refine lex_token begins_tick hquoted (if_neg hne) fun d hd => ?_
  show (if d = '\x60' then _ else if name = [] then _ else _) = _
  rw [if_neg (hrest d hd).2.2, if_neg hne]

theorem lex_alone {text : List Char} {t : Token} (h : Alone text t) (rest : List Char) :
    lex (text ++ ' ' :: rest) = (lex rest).map (t :: ·) := by
  rw [← List.singleton_append, ← List.append_assoc, lex, reads, read_append h]
  rfl

/-- Items that are read one by one, with what is read between them. -/
theorem lex_intercalate {ι : Type} {text : ι → List Char} {tokens : ι → List Token}
    {sep : List Char} {mark : Token} (hsep : sep ≠ []) (hends : Ends sep)
    (hmark : ∀ rest, lex (sep ++ rest) = (lex rest).map (mark :: ·)) {items : List ι}
    (h : ∀ i ∈ items, ∀ rest, Ends rest → lex (text i ++ rest) = (lex rest).map (tokens i ++ ·))
    {rest : List Char} (hrest : Ends rest) :
    lex (sep.intercalate (items.map text) ++ rest) =
      (lex rest).map ([mark].intercalate (items.map tokens) ++ ·) := by
  induction items with
  | nil =>
    show lex rest = (lex rest).map _
    exact (Option.map_id' (x := lex rest)).symm
  | cons i items ih =>
    obtain ⟨hi, hitems⟩ := List.forall_mem_cons.1 h
    cases items with
    | nil =>
      rw [List.map_singleton, List.map_singleton, List.intercalate_singleton,
        List.intercalate_singleton]
      exact hi rest hrest
    | cons j items =>
      have hsepEnds : ∀ following, Ends (sep ++ following) := by
        intro following c hc
        obtain ⟨d, sep, rfl⟩ := List.exists_cons_of_ne_nil hsep
        exact hends c hc
      have hrest := ih hitems
      rw [List.map_cons, List.map_cons] at hrest ⊢
      rw [List.map_cons, List.map_cons, List.intercalate_cons_cons, List.intercalate_cons_cons,
        List.append_assoc, List.append_assoc, hi _ (hsepEnds _), hmark, hrest]
      simp only [Option.map_map]
      congr 1
      funext l
      simp

/-! ## Texts between backticks -/

theorem runs_double {text : List Char} (v : List Char) :
    runs (.quoted text) (Doubling.double '\x60' v) = some ([], .quoted (text ++ v)) := by
  induction v generalizing text with
  | nil => rw [List.append_nil]; rfl
  | cons c v ih =>
    by_cases hc : c = '\x60'
    · subst hc
      have htick : step (.quoted text) '\x60' = some ([], .tick text) := by simp [step]
      have hagain : step (.tick text) '\x60' = some ([], .quoted (text ++ ['\x60'])) := by
        simp [step]
      rw [Doubling.double_mark, runs, run_cons htick, run_cons hagain, ← runs, ih]
      simp [before]
    · have hstep : step (.quoted text) c = some ([], .quoted (text ++ [c])) := by simp [step, hc]
      rw [Doubling.double_cons _ hc, runs, run_cons hstep, ← runs, ih]
      simp [before]

/-- **A quoted name that is read as itself has no backtick.** -/
theorem name_of_lex {name : List Char} (h : lex (quoted name) = some [.name name]) :
    name ≠ [] ∧ '\x60' ∉ name := by
  have hreads : reads (.quoted []) (name ++ ['\x60']) = some [.name name] := by
    rw [quoted, lex_cons begins_tick] at h
    simpa using h
  rcases Doubling.exists_double '\x60' (name ++ ['\x60']) with ⟨v, hv⟩ | ⟨v, rest, hrest, hv⟩
  · rw [hv, ← List.append_nil (Doubling.double _ _), reads, read_append (runs_double v)] at hreads
    cases hreads
  · have hclosed : runs (.quoted []) (Doubling.double '\x60' v ++ ['\x60']) = some ([], .tick v) := by
      rw [runs, run_append (runs_double v)]
      rfl
    rw [hv, ← List.singleton_append, ← List.append_assoc, reads, read_append hclosed, ← reads]
      at hreads
    have hne : v ≠ [] := by
      rintro rfl
      cases rest with
      | nil => cases hreads
      | cons c rest =>
        have hc : c ≠ '\x60' := fun hc => hrest (by rw [hc]; rfl)
        rw [reads, Transducer.read, run_cons_none (by simp [step, hc])] at hreads
        cases hreads
    rw [reads_pending (show finish (.tick v) = some [.name v] from if_neg hne)] at hreads
    · obtain ⟨-, rfl⟩ : lex rest = some [] ∧ v = name := by simpa using hreads
      have hlength := congrArg List.length hv
      rw [List.length_append, List.length_append, Doubling.length_double, List.length_cons] at hlength
      exact ⟨hne, List.count_eq_zero.1 (by simp at hlength; omega)⟩
    · intro c hc
      have hc' : c ≠ '\x60' := fun h => hrest (by rw [← h]; exact hc)
      show (if c = '\x60' then _ else if v = [] then _ else _) = _
      rw [if_neg hc', if_neg hne]

/-! ## What may stand before a parameter -/

/-- The places where most letters put out nothing. -/
inductive Within where
  | lineComment | blockComment | quoted
  | string (quote : Char)

def within : Mode → Option Within
  | .lineComment => some .lineComment
  | .blockComment _ => some .blockComment
  | .quoted _ => some .quoted
  | .string q _ _ => some (.string q)
  | _ => none

/-- The letters that may leave such a place. -/
def leaves : Within → List Char
  | .lineComment => ['\n', '\r']
  | .blockComment => ['/']
  | .quoted => ['\x60']
  | .string q => [q]

theorem step_within {m : Mode} {k : Within} (h : within m = some k) {c : Char} (hc : c ∉ leaves k) :
    ∃ m', step m c = some ([], m') ∧ within m' = some k := by
  cases m with
  | lineComment =>
    cases h
    have hline : ¬(c = '\n' ∨ c = '\r') := by simpa [leaves] using hc
    exact ⟨_, rfl, by rw [if_neg hline]; rfl⟩
  | blockComment star =>
    cases h
    have hslash : ¬(star = true ∧ c = '/') := fun hs => hc (by simp [leaves, hs.2])
    exact ⟨_, rfl, by rw [if_neg hslash]; rfl⟩
  | quoted text =>
    cases h
    have htick : c ≠ '\x60' := by simpa [leaves] using hc
    exact ⟨_, rfl, by rw [if_neg htick]; rfl⟩
  | string q escaped text =>
    cases h
    have hquote : c ≠ q := by simpa [leaves] using hc
    cases escaped with
    | true => exact ⟨_, rfl, rfl⟩
    | false =>
      by_cases hescape : c = '\\'
      · exact ⟨_, if_pos hescape, rfl⟩
      · exact ⟨_, (if_neg hescape).trans (if_neg hquote), rfl⟩
  | _ => cases h

theorem runs_within {m : Mode} {k : Within} (h : within m = some k) {l : List Char}
    (hl : ∀ c ∈ l, c ∉ leaves k) : ∃ m', runs m l = some ([], m') ∧ within m' = some k := by
  induction l generalizing m with
  | nil => exact ⟨m, rfl, h⟩
  | cons c l ih =>
    obtain ⟨m₁, hstep, h₁⟩ := step_within h (hl c List.mem_cons_self)
    obtain ⟨m₂, hruns, h₂⟩ := ih h₁ fun d hd => hl d (List.mem_cons_of_mem c hd)
    exact ⟨m₂, by rw [runs, run_cons hstep, ← runs, hruns]; rfl, h₂⟩

theorem finish_within {m : Mode} {k : Within} (h : within m = some k) :
    finish m = none ∨ k = .lineComment ∧ finish m = some [] := by
  cases m with
  | lineComment => exact .inr ⟨by cases h; rfl, rfl⟩
  | blockComment | quoted | string => exact .inl rfl
  | _ => cases h

/-- Behind a blank a new token begins, elsewhere than in these places. -/
theorem step_space (m : Mode) :
    step m ' ' = none ∨ (∃ tokens, step m ' ' = some (tokens, .blank)) ∨ ∃ k, within m = some k := by
  have hbegins : begins ' ' = some ([], .blank) := rfl
  cases m with
  | blank => exact .inr (.inl ⟨[], rfl⟩)
  | word w => exact .inr (.inl ⟨[wordToken w], rfl⟩)
  | dollar => exact .inl rfl
  | parameter p => exact .inr (.inl ⟨[.parameter p], rfl⟩)
  | integer ds => exact .inr (.inl ⟨[.integer (Decimal.value ds)], rfl⟩)
  | symbol s =>
    refine .inr (.inl ⟨[.symbol [s]], ?_⟩)
    simp [step, isPair, hbegins, before]
  | tick text =>
    by_cases ht : text = []
    · exact .inl (by rw [ht]; rfl)
    · refine .inr (.inl ⟨[.name text], ?_⟩)
      simp [step, ht, hbegins, before]
  | lineComment | blockComment | quoted | string => exact .inr (.inr ⟨_, rfl⟩)

/-! ## Parameters have names -/

/-- What a mode and a token owe to the letters they were made of. -/
def Made : Mode → Prop
  | .parameter p => IsParameterName p
  | .string q _ _ => q = '\'' ∨ q = '"'
  | _ => True

def TokenMade : Token → Prop
  | .parameter p => IsParameterName p
  | _ => True

/-- Everything put out, and the mode reached, is made of letters. -/
def AllMade (r : List Token × Mode) : Prop := (∀ t ∈ r.1, TokenMade t) ∧ Made r.2

theorem begins_made {c : Char} {r : List Token × Mode} (h : begins c = some r) : AllMade r := by
  unfold begins at h
  split at h
  next => cases h; exact ⟨by simp, trivial⟩
  split at h
  next => cases h; exact ⟨by simp, trivial⟩
  split at h
  next => cases h; exact ⟨by simp, trivial⟩
  split at h
  next => cases h; exact ⟨by simp, trivial⟩
  split at h
  next => cases h; exact ⟨by simp, trivial⟩
  split at h
  next hquote => cases h; exact ⟨by simp, hquote⟩
  split at h
  next => cases h; exact ⟨by simp, trivial⟩
  split at h
  next => cases h; exact ⟨by simp [TokenMade], trivial⟩
  next => cases h

theorem before_made {tokens : List Token} {x : Option (List Token × Mode)} {r : List Token × Mode}
    (ht : ∀ t ∈ tokens, TokenMade t) (hx : ∀ r, x = some r → AllMade r)
    (h : before tokens x = some r) : AllMade r := by
  obtain ⟨s, hs, rfl⟩ := Option.map_eq_some_iff.1 h
  obtain ⟨htokens, hmode⟩ := hx s hs
  refine ⟨fun t hmem => ?_, hmode⟩
  rcases List.mem_append.1 hmem with hmem | hmem
  · exact ht t hmem
  · exact htokens t hmem

theorem step_made {m : Mode} (hm : Made m) {c : Char} {r : List Token × Mode}
    (h : step m c = some r) : AllMade r := by
  have hone : ∀ t : Token, TokenMade t → before [t] (begins c) = some r → AllMade r := by
    intro t ht heq
    exact before_made (by simpa using ht) (fun _ => begins_made) heq
  cases m with
  | blank => exact begins_made h
  | word w =>
    simp only [step] at h
    split at h
    next => cases h; exact ⟨by simp, trivial⟩
    next =>
      refine hone _ ?_ h
      unfold wordToken
      split <;> trivial
  | dollar =>
    simp only [step] at h
    split at h
    next hc => cases h; exact ⟨by simp, c, [], rfl, hc, by simp⟩
    next => cases h
  | parameter p =>
    simp only [step] at h
    split at h
    next hc =>
      cases h
      obtain ⟨d, rest, rfl, hd, hrest⟩ := hm
      refine ⟨by simp, d, rest ++ [c], rfl, hd, fun e he => ?_⟩
      rcases List.mem_append.1 he with he | he
      · exact hrest e he
      · rw [List.mem_singleton.1 he]
        exact hc
    next => exact hone (.parameter p) hm h
  | integer ds =>
    simp only [step] at h
    split at h
    next => cases h; exact ⟨by simp, trivial⟩
    next => exact hone (.integer _) trivial h
  | symbol s =>
    simp only [step] at h
    split at h
    next => cases h; exact ⟨by simp, trivial⟩
    split at h
    next => cases h; exact ⟨by simp, trivial⟩
    split at h
    next => cases h; exact ⟨by simp [TokenMade], trivial⟩
    next => exact hone (.symbol _) trivial h
  | lineComment => cases h; exact ⟨by simp, by dsimp only; split <;> trivial⟩
  | blockComment star => cases h; exact ⟨by simp, by dsimp only; split <;> trivial⟩
  | quoted text => cases h; exact ⟨by simp, by dsimp only; split <;> trivial⟩
  | tick text =>
    simp only [step] at h
    split at h
    next => cases h; exact ⟨by simp, trivial⟩
    split at h
    next => cases h
    next => exact hone (.name _) trivial h
  | string q escaped text =>
    simp only [step] at h
    split at h
    next => cases h; exact ⟨by simp, hm⟩
    split at h
    next => cases h; exact ⟨by simp, hm⟩
    split at h
    next => cases h; exact ⟨by simp [TokenMade], trivial⟩
    next => cases h; exact ⟨by simp, hm⟩

theorem runs_made {m : Mode} (hm : Made m) {l : List Char} {r : List Token × Mode}
    (h : runs m l = some r) : AllMade r := by
  induction l generalizing m r with
  | nil => cases h; exact ⟨by simp, hm⟩
  | cons c l ih =>
    obtain ⟨s, hs, hrest⟩ := Option.bind_eq_some_iff.1 h
    have hstep := step_made hm hs
    exact before_made hstep.1 (fun _ => ih hstep.2) hrest

/-! ## Operators and parameters that are read as such -/

/-- The letters that end a comment or a string. -/
def closing : List Char := ['\n', '\r', '/', '\'', '"']

theorem leaves_subset {m : Mode} (hm : Made m) {k : Within} (hk : within m = some k)
    (hkq : k ≠ .quoted) : leaves k ⊆ closing := by
  cases m with
  | lineComment => cases hk; simp [leaves, closing]
  | blockComment star => cases hk; simp [leaves, closing]
  | quoted text => cases hk; exact absurd rfl hkq
  | string q escaped text =>
    cases hk
    rcases hm with rfl | rfl <;> simp [leaves, closing]
  | _ => cases hk

theorem reads_within {m : Mode} (hm : Made m) {k : Within} (hk : within m = some k)
    (hkq : k ≠ .quoted) {l : List Char} (hl : ∀ c ∈ l, c ∉ closing) {rest : List Token}
    (h : reads m l = some rest) : rest = [] := by
  obtain ⟨m', hruns, hk'⟩ :=
    runs_within hk fun c hc hleaves => hl c hc (leaves_subset hm hk hkq hleaves)
  rw [reads, Transducer.read, ← runs, hruns, Option.bind_some] at h
  rcases finish_within hk' with hnone | ⟨-, hnil⟩
  · rw [hnone] at h
    cases h
  · rw [hnil] at h
    cases h
    rfl

/-- **A text is complete before a blank** when two continuations of it are read as themselves. -/
theorem runs_of_lex {text s s' : List Char} {tokens expected expected' : List Token}
    (hs : lex s = some expected) (h : lex (text ++ ' ' :: s) = some (tokens ++ expected))
    (h' : lex (text ++ ' ' :: s') = some (tokens ++ expected')) (hne : expected ≠ expected')
    (hplain : ∀ c ∈ s, c ∉ closing) (hplain' : ∀ c ∈ s', c ∉ closing)
    (hquoted : ∀ name, reads (.quoted name) (' ' :: s) = none) :
    runs .blank (text ++ [' ']) = some (tokens, .blank) := by
  obtain ⟨out, m, rest, hruns, hrest, heq⟩ := exists_of_read_append h
  obtain ⟨_, _, rest', hruns', hrest', heq'⟩ := exists_of_read_append h'
  obtain ⟨rfl, rfl⟩ := Prod.mk.inj (Option.some.inj (hruns.symm.trans hruns'))
  rcases step_space m with hnone | ⟨more, hstep⟩ | ⟨k, hk⟩
  · rw [Transducer.read, run_cons_none hnone] at hrest
    cases hrest
  · have hblank : run step m [' '] = some (more, .blank) := by
      rw [run_cons hstep]
      simp [before]
    have hcontinued : rest = more ++ expected := by
      rw [← List.singleton_append, read_append hblank] at hrest
      obtain ⟨expected₁, hexpected, rfl⟩ := Option.map_eq_some_iff.1 hrest
      rw [show expected₁ = expected from Option.some.inj (hexpected.symm.trans hs)]
    have htokens : tokens = out ++ more := by
      rw [hcontinued, ← List.append_assoc] at heq
      exact List.append_cancel_right heq
    rw [runs, run_append hruns, hblank, htokens]
    rfl
  · exfalso
    by_cases hkq : k = .quoted
    · subst hkq
      cases m with
      | quoted name =>
        rw [show Transducer.read step finish (.quoted name) (' ' :: s) = none from hquoted name]
          at hrest
        cases hrest
      | _ => cases hk
    · have hmade : Made m := (runs_made (show Made .blank from trivial) hruns).2
      have hspace : ' ' ∉ closing := by decide
      have hrest := reads_within hmade hk hkq (by simpa [hspace] using hplain) hrest
      have hrest' := reads_within hmade hk hkq (by simpa [hspace] using hplain') hrest'
      rw [hrest] at heq
      rw [hrest'] at heq'
      exact hne (List.append_cancel_left (heq.trans heq'.symm))

/-- **What stands before a parameter is one token**, and the parameter has a name. -/
theorem alone_of_runs {operator name : List Char} {t : Token}
    (h : runs .blank (operator ++ ' ' :: '$' :: name ++ [' ']) = some ([t, .parameter name], .blank)) :
    Alone operator t ∧ IsParameterName name := by
  have hname : IsParameterName name :=
    (runs_made (show Made .blank from trivial) h).1 (.parameter name) (by simp)
  refine ⟨?_, hname⟩
  rw [List.append_assoc] at h
  obtain ⟨out, m, hruns, hrest⟩ := exists_of_run_append h
  obtain ⟨c, p, rfl, hc, hp⟩ := hname
  have hparameter : run step .blank ('$' :: (c :: p) ++ [' ']) =
      some ([.parameter (c :: p)], .blank) := by
    have hdollar : step .dollar c = some ([], .parameter [c]) := if_pos hc
    have hrest : run step (.parameter [c]) p = some ([], .parameter (c :: p)) := runs_parameter p hp
    rw [List.cons_append, run_cons (show step .blank '$' = some ([], .dollar) from rfl),
      List.cons_append, run_cons hdollar, run_append hrest]
    rfl
  rcases step_space m with hnone | ⟨more, hstep⟩ | ⟨k, hk⟩
  · rw [List.cons_append, List.cons_append, run_cons_none hnone] at hrest
    cases hrest
  · rw [List.cons_append, List.cons_append, run_cons hstep, ← List.cons_append, hparameter] at hrest
    obtain ⟨hout, -⟩ : out ++ (more ++ [.parameter (c :: p)]) = [t, .parameter (c :: p)] ∧ True := by
      simpa [before] using hrest
    have ht : out ++ more = [t] := by
      rw [← List.append_assoc] at hout
      exact List.append_cancel_right (hout.trans (show _ = [t] ++ [.parameter (c :: p)] from rfl))
    rw [Alone, runs, run_append hruns, run_cons hstep, ← ht]
    simp [before]
  · exfalso
    have hmade : Made m := (runs_made (show Made .blank from trivial) hruns).2
    have hleaves : leaves k ⊆ '\x60' :: closing := by
      by_cases hkq : k = .quoted
      · subst hkq
        simp [leaves]
      · exact fun d hd => List.mem_cons_of_mem _ (leaves_subset hmade hk hkq hd)
    have hcontinued : ∀ d, isContinued d = true → d ∉ leaves k := by
      intro d hd hmem
      have hall : ('\x60' :: closing).all (fun e => !isContinued e) = true := by decide
      have hnot := List.all_eq_true.1 hall d (hleaves hmem)
      rw [hd] at hnot
      cases hnot
    have hletters : ∀ d ∈ ' ' :: '$' :: (c :: p) ++ [' '], d ∉ leaves k := by
      have hspace : ' ' ∉ leaves k := fun hmem => absurd (hleaves hmem) (by decide)
      intro d hd
      simp only [List.cons_append, List.mem_cons, List.mem_append, List.not_mem_nil, or_false] at hd
      rcases hd with rfl | rfl | rfl | hd | rfl
      · exact hspace
      · exact hcontinued _ rfl
      · exact hcontinued _ (by simp [isContinued, hc])
      · exact hcontinued _ (hp _ hd)
      · exact hspace
    obtain ⟨m', hm', hk'⟩ := runs_within hk hletters
    rw [← runs, hm'] at hrest
    obtain ⟨-, rfl⟩ : out = [t, .parameter (c :: p)] ∧ m' = .blank := by
      simpa [before] using hrest
    cases hk'

theorem runs_parameter_puts {p l : List Char} {r : List Token × Mode}
    (h : runs (.parameter p) l = some r) : r.1 ≠ [] ∨ ∃ p', r.2 = .parameter p' := by
  induction l generalizing p with
  | nil => cases h; exact .inr ⟨p, rfl⟩
  | cons c l ih =>
    obtain ⟨s, hs, hrest⟩ := Option.bind_eq_some_iff.1 h
    simp only [step] at hs
    split at hs
    next => cases hs; exact ih (by simpa using hrest)
    next =>
      obtain ⟨u, -, rfl⟩ := Option.map_eq_some_iff.1 hs
      obtain ⟨v, -, rfl⟩ := Option.map_eq_some_iff.1 hrest
      exact .inl (by simp)

/-- **Nothing is added to an operator by what stands behind it.** -/
theorem alone_unique {operator operator' rest rest' : List Char} {t : Token}
    (h : Alone operator t) (h' : Alone operator' t)
    (heq : operator ++ ' ' :: '$' :: rest = operator' ++ ' ' :: '$' :: rest') :
    operator = operator' := by
  have hnot : ∀ {l d x y : List Char}, Alone l t → Alone (l ++ d) t →
      ' ' :: '$' :: x = d ++ ' ' :: '$' :: y → d = [] := by
    intro l d x y hl hd hxy
    cases d with
    | nil => rfl
    | cons c d =>
      exfalso
      cases d with
      | nil => cases hxy
      | cons c' d =>
        obtain ⟨rfl, rfl, -⟩ : ' ' = c ∧ '$' = c' ∧ x = d ++ ' ' :: '$' :: y := by simpa using hxy
        have hl' : run step .blank (l ++ [' ']) = some ([t], .blank) := hl
        have hsplit : l ++ ' ' :: '$' :: d ++ [' '] = (l ++ [' ']) ++ '$' :: (d ++ [' ']) := by simp
        rw [Alone, hsplit, runs, run_append hl',
          run_cons (show step .blank '$' = some ([], .dollar) from rfl), before_nil] at hd
        obtain ⟨r, hr, hputs⟩ := Option.map_eq_some_iff.1 hd
        obtain ⟨hnil, hblank⟩ : r.1 = [] ∧ r.2 = .blank := by simpa using hputs
        cases d with
        | nil => cases hr
        | cons c d =>
          obtain ⟨s, hs, hrest⟩ := Option.bind_eq_some_iff.1 hr
          simp only [step] at hs
          split at hs
          next =>
            cases hs
            rw [before_nil] at hrest
            rcases runs_parameter_puts hrest with hne | ⟨p, hp⟩
            · exact hne hnil
            · rw [hblank] at hp
              cases hp
          next => cases hs
  rcases List.append_eq_append_iff.1 heq with ⟨d, rfl, hd⟩ | ⟨d, rfl, hd⟩
  · rw [hnot h h' hd, List.append_nil]
  · rw [hnot h' h hd, List.append_nil]

end Plenora.Lib.CypherLexer
