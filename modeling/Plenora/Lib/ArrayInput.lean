import Mathlib

/-!
# The array input of PostgreSQL

A text is read token by token: braces, commas, quoted elements and unquoted ones, with
spaces around them.  The reader keeps the elements of the open levels; the shape of the
array (how deep, how long every level) is checked on the way and can be left out.

    reads_unique : Reads checked r o → Reads checked r o' → o = o'
-/

namespace Plenora.Lib.ArrayInput

/-! ## Tokens -/

def isSpace (c : Char) : Bool :=
  c = ' ' || c = '\t' || c = '\n' || c = '\r' || c = '\x0B' || c = '\x0C'

def skip (text : List Char) : List Char := text.dropWhile isSpace

/-- ASCII lower case. -/
def lower (c : Char) : Char :=
  if 'A' ≤ c ∧ c ≤ 'Z' then Char.ofNat (c.toNat + 32) else c

def isNull (element : List Char) : Bool := element.map lower = ['n', 'u', 'l', 'l']

inductive Token where
  | levelStart
  | levelEnd
  | delim
  | elem (value : Option (List Char))
  deriving DecidableEq, Repr

/-- What follows an opening quote: the element and the text after its closing quote. -/
def quoted : List Char → Option (List Char × List Char)
  | [] => none
  | c :: rest =>
    if c = '"' then some ([], rest)
    else if c = '\\' then
      match rest with
      | [] => none
      | e :: rest => (quoted rest).map fun p => (e :: p.1, p.2)
    else (quoted rest).map fun p => (c :: p.1, p.2)

/-- An unquoted element to the comma or the brace after it.  `kept` is what is known not
to be space at the end. -/
def unquoted (buffer kept : List Char) (escapes : Bool) :
    List Char → Option (List Char × Bool × List Char)
  | [] => none
  | c :: rest =>
    if c = '{' ∨ c = '"' then none
    else if c = '\\' then
      match rest with
      | [] => none
      | e :: rest => unquoted (buffer ++ [e]) (buffer ++ [e]) true rest
    else if c = ',' ∨ c = '}' then some (kept, escapes, c :: rest)
    else unquoted (buffer ++ [c]) (if isSpace c then kept else buffer ++ [c]) escapes rest

def token (text : List Char) : Option (Token × List Char) :=
  match skip text with
  | [] => none
  | c :: rest =>
    if c = '"' then
      (quoted rest).bind fun p =>
        -- a quoted element stands alone between its delimiters
        match skip p.2 with
        | [] => none
        | d :: more =>
          if d = ',' ∨ d = '}' ∨ d = '{' then some (.elem (some p.1), d :: more) else none
    else if c = '{' then some (.levelStart, rest)
    else if c = '}' then some (.levelEnd, rest)
    else if c = ',' then some (.delim, rest)
    else
      (unquoted [] [] false (c :: rest)).map fun p =>
        (.elem (if p.2.1 = false ∧ isNull p.1 then none else some p.1), p.2.2)

/-! ## The reader -/

/-- The reader between two tokens. -/
structure Reader where
  rest : List Char
  values : List (Option (List Char))
  /-- The elements of the open levels, innermost first. -/
  counts : List Nat
  expectDelim : Bool
  ndim : Nat
  frozen : Bool
  /-- The length of a level, from its first array on. -/
  dims : Nat → Option Nat

inductive Outcome where
  | malformed
  | shape
  | read (values : List (Option (List Char)))
  deriving DecidableEq, Repr

inductive Step where
  | more (r : Reader)
  | answer (o : Outcome)

def maxDim : Nat := 6

def Reader.levelStart (checked : Bool) (r : Reader) (rest : List Char) : Step :=
  if r.expectDelim then .answer .malformed
  else if checked ∧ (maxDim ≤ r.counts.length ∨ (r.ndim < r.counts.length + 1 ∧ r.frozen)) then
    .answer .shape
  else .more { r with rest := rest, counts := 0 :: r.counts,
                      ndim := max r.ndim (r.counts.length + 1) }

def Reader.levelEnd (checked : Bool) (r : Reader) (rest : List Char) : Step :=
  match r.counts with
  | [] => .answer .malformed
  | n :: outer =>
    if 0 < n ∧ r.expectDelim = false then .answer .malformed
    else if checked ∧ (r.dims outer.length).any (· ≠ n) then .answer .shape
    else
      match outer with
      -- only spaces may follow the last brace
      | [] => .answer (if skip rest = [] then .read r.values else .malformed)
      | m :: outer =>
        .more { r with rest := rest, counts := (m + 1) :: outer, expectDelim := true,
                       dims := Function.update r.dims (outer.length + 1) (some n) }

def Reader.delim (r : Reader) (rest : List Char) : Step :=
  if r.expectDelim then .more { r with rest := rest, expectDelim := false }
  else .answer .malformed

def Reader.elem (checked : Bool) (r : Reader) (value : Option (List Char)) (rest : List Char) :
    Step :=
  match r.counts with
  | [] => .answer .malformed
  | n :: outer =>
    if r.expectDelim then .answer .malformed
    else if checked ∧ r.counts.length ≠ r.ndim then .answer .shape
    else .more { r with rest := rest, values := r.values ++ [value], counts := (n + 1) :: outer,
                        expectDelim := true, frozen := true }

/-- What a token does; the shape is checked where `checked` says so. -/
def Reader.take (checked : Bool) (r : Reader) (t : Token) (rest : List Char) : Step :=
  match t with
  | .levelStart => r.levelStart checked rest
  | .levelEnd => r.levelEnd checked rest
  | .delim => r.delim rest
  | .elem value => r.elem checked value rest

def Reader.step (checked : Bool) (r : Reader) : Step :=
  match token r.rest with
  | none => .answer .malformed
  | some p => r.take checked p.1 p.2

/-- The tokens are read until there is an answer. -/
inductive Reads (checked : Bool) : Reader → Outcome → Prop
  | stop {r : Reader} {o : Outcome} (h : r.step checked = .answer o) : Reads checked r o
  | next {r r' : Reader} {o : Outcome} (h : r.step checked = .more r') (hr : Reads checked r' o) :
      Reads checked r o

def Reader.start (text : List Char) : Reader :=
  { rest := text, values := [], counts := [], expectDelim := false, ndim := 0, frozen := false,
    dims := fun _ => none }

/-- A text is an array that starts with its brace, or one with declared dimensions, which
`declared` reads. -/
def ArrayIn (checked : Bool) (declared : List Char → Outcome) (text : List Char) (o : Outcome) :
    Prop :=
  match skip text with
  | '{' :: rest => Reads checked (Reader.start ('{' :: rest)) o
  | '[' :: rest => o = declared ('[' :: rest)
  | _ => o = .malformed

/-- **A text has one answer.** -/
theorem reads_unique {checked : Bool} {r : Reader} {o o' : Outcome} (h : Reads checked r o)
    (h' : Reads checked r o') : o = o' := by
  induction h with
  | stop h =>
    cases h' with
    | stop g =>
      rw [h] at g
      cases g
      rfl
    | next g _ =>
      rw [h] at g
      cases g
  | next h _ ih =>
    cases h' with
    | stop g =>
      rw [h] at g
      cases g
    | next g hr =>
      rw [h] at g
      cases g
      exact ih hr

theorem arrayIn_unique {checked : Bool} {declared : List Char → Outcome} {text : List Char}
    {o o' : Outcome} (h : ArrayIn checked declared text o)
    (h' : ArrayIn checked declared text o') : o = o' := by
  unfold ArrayIn at h h'
  split at h
  next hskip =>
    rw [hskip] at h'
    exact reads_unique h h'
  next hskip =>
    rw [hskip] at h'
    exact h.trans h'.symm
  next hother hother' =>
    split at h'
    next rest hskip => exact absurd hskip (hother rest)
    next rest hskip => exact absurd hskip (hother' rest)
    next => exact h.trans h'.symm

/-! ## The steps of the reader -/

theorem levelStart_cases {checked : Bool} {r : Reader} (h : r.expectDelim = false)
    (rest : List Char) :
    (∃ r', r.levelStart checked rest = .more r' ∧ r'.rest = rest ∧ r'.values = r.values ∧
        r'.counts = 0 :: r.counts ∧ r'.expectDelim = false) ∨
      (checked = true ∧ r.levelStart checked rest = .answer .shape) := by
  unfold Reader.levelStart
  rw [if_neg (by simp [h])]
  split
  next hshape => exact .inr ⟨hshape.1, rfl⟩
  next => exact .inl ⟨_, rfl, rfl, rfl, rfl, h⟩

theorem elem_cases {checked : Bool} {r : Reader} (h : r.expectDelim = false)
    (hcounts : r.counts ≠ []) (value : Option (List Char)) (rest : List Char) :
    (∃ r', r.elem checked value rest = .more r' ∧ r'.rest = rest ∧
        r'.values = r.values ++ [value] ∧ r'.counts.length = r.counts.length ∧
        r'.expectDelim = true) ∨
      (checked = true ∧ r.elem checked value rest = .answer .shape) := by
  unfold Reader.elem
  split
  next hnil => exact absurd hnil hcounts
  next n outer hcons =>
    rw [if_neg (by simp [h])]
    split
    next hshape => exact .inr ⟨hshape.1, rfl⟩
    next => exact .inl ⟨_, rfl, rfl, rfl, by rw [hcons]; rfl, rfl⟩

theorem levelEnd_cases {checked : Bool} {r : Reader} {n : Nat} {outer : List Nat}
    (hcounts : r.counts = n :: outer) (h : n = 0 ∨ r.expectDelim = true) (rest : List Char) :
    (outer = [] ∧ r.levelEnd checked rest =
        .answer (if skip rest = [] then .read r.values else .malformed)) ∨
      (∃ r', r.levelEnd checked rest = .more r' ∧ r'.rest = rest ∧ r'.values = r.values ∧
        r'.counts.length = outer.length ∧ r'.expectDelim = true ∧ outer ≠ []) ∨
      (checked = true ∧ r.levelEnd checked rest = .answer .shape) := by
  unfold Reader.levelEnd
  rw [hcounts]
  have hplace : ¬ (0 < n ∧ r.expectDelim = false) := by
    rintro ⟨hpos, hdelim⟩
    rcases h with rfl | hexpect
    · exact absurd hpos (Nat.lt_irrefl 0)
    · rw [hexpect] at hdelim
      cases hdelim
  simp only [if_neg hplace]
  split
  next hshape => exact .inr (.inr ⟨hshape.1, rfl⟩)
  next =>
    cases outer with
    | nil => exact .inl ⟨rfl, rfl⟩
    | cons m outer => exact .inr (.inl ⟨_, rfl, rfl, rfl, rfl, rfl, List.cons_ne_nil _ _⟩)

theorem step_of_token {checked : Bool} {r : Reader} {t : Token} {rest : List Char}
    (h : token r.rest = some (t, rest)) : r.step checked = r.take checked t rest := by
  unfold Reader.step
  rw [h]

/-! ## Tokens by their first character -/

@[simp] theorem skip_skip (text : List Char) : skip (skip text) = skip text :=
  List.dropWhile_idempotent _ _

theorem head_skip {text rest : List Char} {c : Char} (h : skip text = c :: rest) :
    isSpace c = false := by
  have := List.head?_dropWhile_not isSpace text
  unfold skip at h
  rw [h] at this
  simpa using this

theorem skip_cons {c : Char} (hc : isSpace c = false) (rest : List Char) :
    skip (c :: rest) = c :: rest := by
  unfold skip
  rw [List.dropWhile_cons_of_neg (by simp [hc])]

/-- Tokens start after the spaces. -/
theorem token_congr {text text' : List Char} (h : skip text = skip text') :
    token text = token text' := by
  unfold token
  rw [h]

/-- Characters of an element that needs no quotes. -/
def Plain (c : Char) : Prop :=
  isSpace c = false ∧ c ≠ '{' ∧ c ≠ '}' ∧ c ≠ '"' ∧ c ≠ ',' ∧ c ≠ '\\'

@[simp] theorem quoted_quote (rest : List Char) : quoted ('"' :: rest) = some ([], rest) := by
  rw [quoted.eq_def]
  rfl

@[simp] theorem quoted_escape (e : Char) (rest : List Char) :
    quoted ('\\' :: e :: rest) = (quoted rest).map fun p => (e :: p.1, p.2) := by
  rw [quoted.eq_def]
  rfl

theorem quoted_char {c : Char} (hquote : c ≠ '"') (hescape : c ≠ '\\') (rest : List Char) :
    quoted (c :: rest) = (quoted rest).map fun p => (c :: p.1, p.2) := by
  rw [quoted.eq_def]
  simp only [if_neg hquote, if_neg hescape]

theorem length_quoted {text rest element : List Char} (h : quoted text = some (element, rest)) :
    rest.length < text.length := by
  fun_induction quoted text generalizing element with
  | case1 => cases h
  | case2 =>
    cases h
    exact Nat.lt_succ_self _
  | case3 => cases h
  | case4 e rest' _ ih =>
    obtain ⟨⟨element', after⟩, hsome, heq⟩ := Option.map_eq_some_iff.1 h
    cases heq
    have hlt := ih hsome
    rw [List.length_cons, List.length_cons]
    omega
  | case5 c rest' _ _ ih =>
    obtain ⟨⟨element', after⟩, hsome, heq⟩ := Option.map_eq_some_iff.1 h
    cases heq
    have hlt := ih hsome
    rw [List.length_cons]
    omega

theorem unquoted_cons {c : Char} (hc : c ≠ '\\') (buffer kept rest : List Char) (escapes : Bool) :
    unquoted buffer kept escapes (c :: rest) =
      if c = '{' ∨ c = '"' then none
      else if c = ',' ∨ c = '}' then some (kept, escapes, c :: rest)
      else unquoted (buffer ++ [c]) (if isSpace c then kept else buffer ++ [c]) escapes rest := by
  rw [unquoted.eq_def]
  simp only [if_neg hc]

theorem unquoted_spaces {spaces : List Char} (hspaces : ∀ c ∈ spaces, isSpace c = true) {d : Char}
    (hd : d = ',' ∨ d = '}') (buffer kept rest : List Char) (escapes : Bool) :
    unquoted buffer kept escapes (spaces ++ d :: rest) = some (kept, escapes, d :: rest) := by
  induction spaces generalizing buffer with
  | nil =>
    have hne : d ≠ '\\' ∧ d ≠ '{' ∧ d ≠ '"' := by
      rcases hd with rfl | rfl
      · decide
      · decide
    rw [List.nil_append, unquoted_cons hne.1, if_neg (by simp [hne]), if_pos hd]
  | cons c spaces ih =>
    obtain ⟨hc, hmore⟩ := List.forall_mem_cons.1 hspaces
    have hne : c ≠ '{' ∧ c ≠ '"' ∧ c ≠ '\\' ∧ c ≠ ',' ∧ c ≠ '}' := by
      refine ⟨?_, ?_, ?_, ?_, ?_⟩
      all_goals rintro rfl; exact absurd hc (by decide)
    rw [List.cons_append, unquoted_cons hne.2.2.1, if_neg (by simp [hne]), if_neg (by simp [hne]),
      if_pos hc, ih hmore]

theorem unquoted_plain {item : List Char} (hitem : ∀ c ∈ item, Plain c) (tail buffer : List Char)
    (escapes : Bool) :
    unquoted buffer buffer escapes (item ++ tail) =
      unquoted (buffer ++ item) (buffer ++ item) escapes tail := by
  induction item generalizing buffer with
  | nil => rw [List.nil_append, List.append_nil]
  | cons c item ih =>
    obtain ⟨⟨hspace, hopen, hclose, hquote, hcomma, hescape⟩, hmore⟩ := List.forall_mem_cons.1 hitem
    rw [List.cons_append, unquoted_cons hescape, if_neg (by simp [hopen, hquote]),
      if_neg (by simp [hcomma, hclose]), if_neg (by simp [hspace]), ih hmore, List.append_assoc]
    rfl

/-- **A plain element is a token**, up to the spaces before its delimiter. -/
theorem token_plain {c d : Char} {item spaces rest : List Char} (hitem : ∀ x ∈ c :: item, Plain x)
    (hspaces : ∀ x ∈ spaces, isSpace x = true) (hd : d = ',' ∨ d = '}') :
    token (c :: item ++ spaces ++ d :: rest) =
      some (.elem (if isNull (c :: item) then none else some (c :: item)), d :: rest) := by
  obtain ⟨hspace, hopen, hclose, hquote, hcomma, -⟩ := hitem c List.mem_cons_self
  unfold token
  rw [List.append_assoc, List.cons_append, skip_cons hspace]
  simp only [if_neg hquote, if_neg hopen, if_neg hclose, if_neg hcomma]
  rw [← List.cons_append, unquoted_plain hitem, List.nil_append, unquoted_spaces hspaces hd]
  simp

theorem token_quoted {text rest element after : List Char} {d : Char}
    (hquoted : quoted text = some (element, rest)) (hrest : skip rest = d :: after)
    (hd : d = ',' ∨ d = '}') :
    token ('"' :: text) = some (.elem (some element), d :: after) := by
  unfold token
  rw [skip_cons (by decide)]
  simp only [if_pos, hquoted, Option.bind_some, hrest]
  rw [if_pos (by tauto)]

@[simp] theorem token_levelStart (rest : List Char) :
    token ('{' :: rest) = some (.levelStart, rest) := by
  unfold token
  rw [skip_cons (by decide)]
  rfl

@[simp] theorem token_levelEnd (rest : List Char) : token ('}' :: rest) = some (.levelEnd, rest) := by
  unfold token
  rw [skip_cons (by decide)]
  rfl

@[simp] theorem token_delim (rest : List Char) : token (',' :: rest) = some (.delim, rest) := by
  unfold token
  rw [skip_cons (by decide)]
  rfl

end Plenora.Lib.ArrayInput
