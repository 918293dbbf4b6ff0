import Plenora.Lib.ArrayInput
import Plenora.Postgres.ValueText

/-!
# Array literals

`array_elements` reads the elements of an array literal in a form that can be read in
one way only.  What `list_string` writes is read back, and what is read at all is read
by the array input of the server.

    scan n text = some (arrayElements text), for text.length < n             (scan_ends)
    arrayElements text = some es → ArrayIn false declared text (.read es)    (arrayIn_of_elements)
-/

namespace Plenora.Postgres.ArrayLiteral

open Plenora.Lib.ArrayInput Plenora.Postgres.ValueText

abbrev Element := Option Text

/-! ## The source -/

/-- The loop over a quoted element, which pushes what it reads. -/
def quotedElement (element : Text) : Text → Option (Text × Text)
  | [] => none
  | c :: rest =>
    if c = '"' then some (element, rest)
    else if c = '\\' then
      match rest with
      | [] => none
      | e :: rest => quotedElement (element ++ [e]) rest
    else quotedElement (element ++ [c]) rest

def isPlain (c : Char) : Bool :=
  !isSpace c && !(c = '{' || c = '}' || c = '"' || c = ',' || c = '\\')

/-- The scan between two turns of its loop. -/
structure Scan where
  rest : Text
  elements : List Element
  depth : Nat
  expect : Bool

inductive Turn where
  | next (s : Scan)
  | refuse
  /-- The last brace is closed; the text after it. -/
  | closed (rest : Text) (elements : List Element)

/-- An opening brace, and the closing one after it of an array without elements. -/
def Scan.opened (s : Scan) (rest : Text) : Turn :=
  match skip rest with
  | '}' :: rest =>
    if s.depth = 0 then .closed rest s.elements else .next { s with rest := rest, expect := false }
  | rest => .next { s with rest := rest, depth := s.depth + 1 }

def Scan.turn (s : Scan) : Turn :=
  match skip s.rest with
  | [] => .refuse
  | c :: rest =>
    if c = '{' ∧ s.expect then s.opened rest
    else if c = '}' ∧ s.expect = false then
      if s.depth = 0 then .refuse
      else if s.depth = 1 then .closed rest s.elements
      else .next { s with rest := rest, depth := s.depth - 1 }
    else if c = ',' ∧ s.expect = false ∧ 0 < s.depth then
      .next { s with rest := rest, expect := true }
    else if c = '"' ∧ s.expect then
      match quotedElement [] rest with
      | none => .refuse
      | some (element, rest) =>
        .next { s with rest := rest, elements := s.elements ++ [some element], expect := false }
    else if s.expect then
      let element := (c :: rest).takeWhile isPlain
      if element = [] then .refuse
      else
        .next { s with rest := (c :: rest).dropWhile isPlain,
                       elements := s.elements ++ [if isNull element then none else some element],
                       expect := false }
    else .refuse

/-- The loop with `fuel` turns, `none` when they are not enough. -/
def loop : Nat → Scan → Option (Option (List Element))
  | 0, _ => none
  | fuel + 1, s =>
    match s.turn with
    | .next s => loop fuel s
    | .refuse => some none
    | .closed rest elements => some (if skip rest = [] then some elements else none)

def scan (fuel : Nat) (text : Text) : Option (Option (List Element)) :=
  if (skip text).head? = some '{' then
    loop fuel { rest := skip text, elements := [], depth := 0, expect := true }
  else some none

/-- The elements of a literal, `none` where it is refused. -/
def arrayElements (text : Text) : Option (List Element) := (scan (text.length + 1) text).getD none

example : arrayElements " \x7b a , nUlL,\"NULL\" , \x7b\"x\\\\y\\\"z\"\x7d, \x7b\x7d \x7d ".toList =
    some [some ['a'], none, some ['N', 'U', 'L', 'L'], some ['x', '\\', 'y', '"', 'z']] := by
  decide +kernel

example : arrayElements "{a b}".toList = none := by decide +kernel

/-! ## The scan ends -/

theorem length_skip (text : Text) : (skip text).length ≤ text.length :=
  (List.dropWhile_suffix isSpace).length_le

theorem quotedElement_eq (element text : Text) :
    quotedElement element text = (quoted text).map fun p => (element ++ p.1, p.2) := by
  have hmap (element : Text) (e : Char) (text : Text) :
      (quoted text).map (fun p => ((element ++ [e]) ++ p.1, p.2)) =
        ((quoted text).map fun p => (e :: p.1, p.2)).map fun p => (element ++ p.1, p.2) := by
    rw [Option.map_map]
    congr 1
    funext p
    simp
  fun_induction quotedElement element text with
  | case1 => rfl
  | case2 element rest => rw [quoted_quote, Option.map_some, List.append_nil]
  | case3 => rfl
  | case4 element e rest _ ih => rw [ih, quoted_escape, hmap]
  | case5 element c rest hquote hescape ih => rw [ih, quoted_char hquote hescape, hmap]

/-- What a turn that goes on has seen. -/
inductive Went (s : Scan) : Scan → Prop
  | opened {rest : Text} (hrest : skip s.rest = '{' :: rest) (hexpect : s.expect = true) :
      Went s { s with rest := skip rest, depth := s.depth + 1 }
  | empty {mid rest : Text} (hrest : skip s.rest = '{' :: mid) (hmid : skip mid = '}' :: rest)
      (hexpect : s.expect = true) (hdepth : 0 < s.depth) :
      Went s { s with rest := rest, expect := false }
  | closed {rest : Text} (hrest : skip s.rest = '}' :: rest) (hexpect : s.expect = false)
      (hdepth : 1 < s.depth) : Went s { s with rest := rest, depth := s.depth - 1 }
  | comma {rest : Text} (hrest : skip s.rest = ',' :: rest) (hexpect : s.expect = false)
      (hdepth : 0 < s.depth) : Went s { s with rest := rest, expect := true }
  | quoted {text element rest : Text} (hrest : skip s.rest = '"' :: text)
      (hquoted : quoted text = some (element, rest)) (hexpect : s.expect = true) :
      Went s { s with rest := rest, elements := s.elements ++ [some element], expect := false }
  | plain {c : Char} {item rest : Text} (hrest : skip s.rest = c :: item ++ rest)
      (hitem : ∀ x ∈ c :: item, isPlain x = true) (hexpect : s.expect = true) :
      Went s { s with rest := rest,
                      elements := s.elements ++ [if isNull (c :: item) then none else some (c :: item)],
                      expect := false }

theorem went_of_turn {s s' : Scan} (h : s.turn = .next s') : Went s s' := by
  unfold Scan.turn at h
  split at h
  next => cases h
  next c rest hrest =>
    split at h
    next hopen =>
      obtain ⟨rfl, hexpect⟩ := hopen
      unfold Scan.opened at h
      split at h
      next rest' hmid =>
        split at h
        next => cases h
        next hdepth =>
          cases h
          exact .empty hrest hmid hexpect (by omega)
      next =>
        cases h
        exact .opened hrest hexpect
    next =>
      split at h
      next hclose =>
        obtain ⟨rfl, hexpect⟩ := hclose
        split at h
        next => cases h
        next =>
          split at h
          next => cases h
          next =>
            cases h
            exact .closed hrest hexpect (by omega)
      next =>
        split at h
        next hcomma =>
          obtain ⟨rfl, hexpect, hdepth⟩ := hcomma
          cases h
          exact .comma hrest hexpect hdepth
        next =>
          split at h
          next hquote =>
            obtain ⟨rfl, hexpect⟩ := hquote
            split at h
            next => cases h
            next element rest' hsome =>
              cases h
              rw [quotedElement_eq] at hsome
              obtain ⟨⟨e, r⟩, hquoted, heq⟩ := Option.map_eq_some_iff.1 hsome
              cases heq
              exact .quoted hrest hquoted hexpect
          next =>
            split at h
            next hexpect =>
              obtain ⟨item, hitem⟩ : ∃ item, (c :: rest).takeWhile isPlain = item := ⟨_, rfl⟩
              simp only [hitem] at h
              split at h
              next => cases h
              next hne =>
                cases h
                cases item with
                | nil => exact absurd rfl hne
                | cons d item =>
                  refine .plain ?_ ?_ hexpect
                  · rw [hrest, ← hitem, List.takeWhile_append_dropWhile]
                  · intro x hx
                    rw [← hitem] at hx
                    exact List.mem_takeWhile_imp hx
            next => cases h

theorem length_of_skip {text rest : Text} {c : Char} (h : skip text = c :: rest) :
    rest.length < text.length := by
  have := length_skip text
  rw [h, List.length_cons] at this
  omega

/-- A turn that goes on has read something. -/
theorem turn_shorter {s s' : Scan} (h : s.turn = .next s') : s'.rest.length < s.rest.length := by
  cases went_of_turn h with
  | @opened rest hrest =>
    have := length_of_skip hrest
    have := length_skip rest
    dsimp only
    omega
  | empty hrest hmid =>
    have := length_of_skip hrest
    have := length_of_skip hmid
    dsimp only
    omega
  | closed hrest => exact length_of_skip hrest
  | comma hrest => exact length_of_skip hrest
  | quoted hrest hquoted =>
    have := length_of_skip hrest
    have := length_quoted hquoted
    dsimp only
    omega
  | @plain c item rest hrest =>
    have := length_of_skip hrest
    have happend : (item ++ rest).length = item.length + rest.length := List.length_append
    dsimp only
    have : (item ++ rest).length < s.rest.length := this
    omega

theorem loop_ends (fuel : Nat) (s : Scan) (h : s.rest.length < fuel) : ∃ r, loop fuel s = some r := by
  induction fuel generalizing s with
  | zero => exact absurd h (Nat.not_lt_zero _)
  | succ fuel ih =>
    rw [loop]
    split
    next s' hturn =>
      have := turn_shorter hturn
      exact ih s' (by omega)
    next => exact ⟨_, rfl⟩
    next => exact ⟨_, rfl⟩

theorem loop_mono {fuel more : Nat} (s : Scan) {r : Option (List Element)}
    (h : loop fuel s = some r) (hle : fuel ≤ more) : loop more s = some r := by
  induction fuel generalizing s more with
  | zero => cases h
  | succ fuel ih =>
    obtain ⟨m, rfl⟩ : ∃ m, more = m + 1 := ⟨more - 1, by omega⟩
    rw [loop] at h ⊢
    cases hturn : s.turn with
    | next s' =>
      rw [hturn] at h
      exact ih s' h (by omega)
    | refuse =>
      rw [hturn] at h
      exact h
    | closed rest elements =>
      rw [hturn] at h
      exact h

/-- **The scan ends**, whatever the text is. -/
theorem scan_ends {text : Text} {fuel : Nat} (h : text.length < fuel) :
    scan fuel text = some (arrayElements text) := by
  unfold arrayElements scan
  split
  next =>
    have hlen := length_skip text
    obtain ⟨r, hr⟩ := loop_ends (text.length + 1)
      { rest := skip text, elements := [], depth := 0, expect := true }
      (show (skip text).length < _ by omega)
    rw [loop_mono _ hr h, hr]
    rfl
  next => rfl

/-! ## The server reads the same -/

theorem closed_of_turn {s : Scan} {rest : Text} {elements : List Element}
    (h : s.turn = .closed rest elements) :
    elements = s.elements ∧
      ((∃ mid, skip s.rest = '{' :: mid ∧ skip mid = '}' :: rest ∧ s.expect = true ∧ s.depth = 0) ∨
        (skip s.rest = '}' :: rest ∧ s.expect = false ∧ s.depth = 1)) := by
  unfold Scan.turn at h
  split at h
  next => cases h
  next c rest' hrest =>
    split at h
    next hopen =>
      obtain ⟨rfl, hexpect⟩ := hopen
      unfold Scan.opened at h
      split at h
      next after hmid =>
        split at h
        next hdepth =>
          cases h
          exact ⟨rfl, .inl ⟨rest', hrest, hmid, hexpect, hdepth⟩⟩
        next => cases h
      next => cases h
    next =>
      split at h
      next hclose =>
        obtain ⟨rfl, hexpect⟩ := hclose
        split at h
        next => cases h
        next =>
          split at h
          next hdepth =>
            cases h
            exact ⟨rfl, .inr ⟨hrest, hexpect, hdepth⟩⟩
          next => cases h
      next =>
        split at h
        next => cases h
        next =>
          split at h
          next =>
            split at h
            next => cases h
            next => cases h
          next =>
            split at h
            next =>
              dsimp only at h
              split at h
              next => cases h
              next => cases h
            next => cases h

/-- After an element there is a comma or a brace, or the scan is refused. -/
theorem delimiter_of_loop {fuel : Nat} {s : Scan} {es : List Element}
    (h : loop fuel s = some (some es)) (hexpect : s.expect = false) :
    ∃ d rest, skip s.rest = d :: rest ∧ (d = ',' ∨ d = '}') := by
  cases fuel with
  | zero => cases h
  | succ fuel =>
    rw [loop] at h
    cases hturn : s.turn with
    | next s' =>
      cases went_of_turn hturn with
      | opened _ he => rw [hexpect] at he; cases he
      | empty _ _ he => rw [hexpect] at he; cases he
      | closed hrest => exact ⟨_, _, hrest, .inr rfl⟩
      | comma hrest => exact ⟨_, _, hrest, .inl rfl⟩
      | quoted _ _ he => rw [hexpect] at he; cases he
      | plain _ _ he => rw [hexpect] at he; cases he
    | refuse =>
      rw [hturn] at h
      cases h
    | closed rest elements =>
      obtain ⟨-, ⟨mid, -, -, he, -⟩ | ⟨hrest, -, -⟩⟩ := closed_of_turn hturn
      · rw [hexpect] at he
        cases he
      · exact ⟨_, _, hrest, .inr rfl⟩

/-- The reader stands where the scan does. -/
structure Follows (s : Scan) (r : Reader) : Prop where
  rest : skip r.rest = skip s.rest
  values : r.values = s.elements
  depth : r.counts.length = s.depth
  delim : r.expectDelim = !s.expect
  opened : s.depth = 0 → ∃ rest, skip s.rest = '{' :: rest

/-- The answer, or the refusal of a shape. -/
def Answers (checked : Bool) (r : Reader) (o : Outcome) : Prop :=
  Reads checked r o ∨ (checked = true ∧ Reads checked r .shape)

theorem Answers.step {checked : Bool} {r : Reader} {o : Outcome}
    (h : (∃ r', r.step checked = .more r' ∧ Answers checked r' o) ∨
      (checked = true ∧ r.step checked = .answer .shape)) : Answers checked r o := by
  rcases h with ⟨r', hstep, hreads | ⟨hchecked, hreads⟩⟩ | ⟨hchecked, hstep⟩
  · exact .inl (.next hstep hreads)
  · exact .inr ⟨hchecked, .next hstep hreads⟩
  · exact .inr ⟨hchecked, .stop hstep⟩

theorem answers_levelStart {checked : Bool} {r : Reader} {o : Outcome} {rest : Text}
    (htoken : token r.rest = some (.levelStart, rest)) (hdelim : r.expectDelim = false)
    (hnext : ∀ r' : Reader, r'.rest = rest → r'.values = r.values → r'.counts = 0 :: r.counts →
      r'.expectDelim = false → Answers checked r' o) : Answers checked r o := by
  refine .step ?_
  rw [step_of_token htoken]
  rcases @levelStart_cases checked _ hdelim rest with
    ⟨r', hstep, hrest, hvalues, hcounts, hdelim'⟩ | hshape
  · exact .inl ⟨r', hstep, hnext r' hrest hvalues hcounts hdelim'⟩
  · exact .inr hshape

theorem answers_levelEnd {checked : Bool} {r : Reader} {o : Outcome} {rest : Text} {n : Nat}
    {outer : List Nat} (htoken : token r.rest = some (.levelEnd, rest))
    (hcounts : r.counts = n :: outer) (hplace : n = 0 ∨ r.expectDelim = true)
    (hlast : outer = [] → skip rest = [] ∧ Outcome.read r.values = o)
    (hnext : ∀ r' : Reader, r'.rest = rest → r'.values = r.values →
      r'.counts.length = outer.length → r'.expectDelim = true → outer ≠ [] →
        Answers checked r' o) : Answers checked r o := by
  have hstep := @step_of_token checked _ _ _ htoken
  rcases @levelEnd_cases checked _ _ _ hcounts hplace rest with
    ⟨hnil, hanswer⟩ | ⟨r', hmore, hrest, hvalues, hlen, hdelim, hne⟩ | ⟨hchecked, hshape⟩
  · obtain ⟨hspaces, rfl⟩ := hlast hnil
    rw [if_pos hspaces] at hanswer
    exact .inl (.stop (hstep.trans hanswer))
  · exact .step (.inl ⟨r', hstep.trans hmore, hnext r' hrest hvalues hlen hdelim hne⟩)
  · exact .inr ⟨hchecked, .stop (hstep.trans hshape)⟩

theorem answers_elem {checked : Bool} {r : Reader} {o : Outcome} {rest : Text} {value : Element}
    (htoken : token r.rest = some (.elem value, rest)) (hdelim : r.expectDelim = false)
    (hcounts : r.counts ≠ [])
    (hnext : ∀ r' : Reader, r'.rest = rest → r'.values = r.values ++ [value] →
      r'.counts.length = r.counts.length → r'.expectDelim = true → Answers checked r' o) :
    Answers checked r o := by
  refine .step ?_
  rw [step_of_token htoken]
  rcases @elem_cases checked _ hdelim hcounts value rest with
    ⟨r', hstep, hrest, hvalues, hlen, hdelim'⟩ | hshape
  · exact .inl ⟨r', hstep, hnext r' hrest hvalues hlen hdelim'⟩
  · exact .inr hshape

theorem plain_of_isPlain {c : Char} (h : isPlain c = true) : Plain c := by
  unfold isPlain at h
  simp only [Bool.and_eq_true, Bool.not_eq_true', Bool.or_eq_false_iff, decide_eq_false_iff_not] at h
  obtain ⟨hspace, ⟨⟨⟨hopen, hclose⟩, hquote⟩, hcomma⟩, hescape⟩ := h
  exact ⟨hspace, hopen, hclose, hquote, hcomma, hescape⟩

/-- **What the scan accepts, the server reads**, element by element. -/
theorem answers_of_loop (checked : Bool) {fuel : Nat} {s : Scan} {r : Reader} {es : List Element}
    (h : loop fuel s = some (some es)) (hf : Follows s r) : Answers checked r (.read es) := by
  induction fuel generalizing s r with
  | zero => cases h
  | succ fuel ih =>
    rw [loop] at h
    have htoken {c : Char} {rest : Text} (hrest : skip s.rest = c :: rest) :
        token r.rest = token (c :: rest) := by
      refine token_congr ?_
      rw [hf.rest, hrest, skip_cons (head_skip hrest)]
    cases hturn : s.turn with
    | refuse =>
      rw [hturn] at h
      cases h
    | closed rest elements =>
      rw [hturn] at h
      obtain ⟨rfl, hcases⟩ := closed_of_turn hturn
      have hspaces : skip rest = [] ∧ s.elements = es := by
        dsimp only at h
        split at h
        next hskip =>
          cases h
          exact ⟨hskip, rfl⟩
        next => cases h
      rcases hcases with ⟨mid, hrest, hmid, hexpect, hdepth⟩ | ⟨hrest, hexpect, hdepth⟩
      · have hcounts : r.counts = [] := List.length_eq_zero_iff.1 (hf.depth.trans hdepth)
        refine answers_levelStart ((htoken hrest).trans (token_levelStart mid))
          (hf.delim.trans (by rw [hexpect]; rfl)) fun r' hr' hvalues hcounts' hdelim' => ?_
        have htoken' : token r'.rest = some (.levelEnd, rest) := by
          rw [hr', token_congr (hmid.trans (skip_cons (by decide) rest).symm), token_levelEnd]
        refine answers_levelEnd htoken' (hcounts'.trans (by rw [hcounts])) (.inl rfl) ?_
          (fun _ _ _ _ _ hne => absurd rfl hne)
        rintro -
        rw [hvalues, hf.values, hspaces.2]
        exact ⟨hspaces.1, rfl⟩
      · obtain ⟨n, hcounts⟩ := List.length_eq_one_iff.1 (hf.depth.trans hdepth)
        refine answers_levelEnd ((htoken hrest).trans (token_levelEnd rest)) hcounts
          (.inr (hf.delim.trans (by rw [hexpect]; rfl))) ?_ (fun _ _ _ _ _ hne => absurd rfl hne)
        rintro -
        rw [hf.values, hspaces.2]
        exact ⟨hspaces.1, rfl⟩
    | next s' =>
      rw [hturn] at h
      cases went_of_turn hturn with
      | @opened rest hrest hexpect =>
        refine answers_levelStart ((htoken hrest).trans (token_levelStart rest))
          (hf.delim.trans (by rw [hexpect]; rfl)) fun r' hr' hvalues hcounts' hdelim' => ?_
        refine ih h ⟨?_, hvalues.trans hf.values, ?_, ?_, ?_⟩
        · rw [hr', skip_skip]
        · rw [hcounts', List.length_cons, hf.depth]
        · rw [hdelim', hexpect]
          rfl
        · exact fun hzero => absurd hzero (Nat.succ_ne_zero _)
      | @empty mid rest hrest hmid hexpect hdepth =>
        refine answers_levelStart ((htoken hrest).trans (token_levelStart mid))
          (hf.delim.trans (by rw [hexpect]; rfl)) fun r' hr' hvalues hcounts' hdelim' => ?_
        have htoken' : token r'.rest = some (.levelEnd, rest) := by
          rw [hr', token_congr (hmid.trans (skip_cons (by decide) rest).symm), token_levelEnd]
        have houter : r.counts ≠ [] := by
          intro hnil
          rw [← hf.depth, hnil] at hdepth
          exact absurd hdepth (Nat.lt_irrefl 0)
        refine answers_levelEnd htoken' hcounts' (.inl rfl) (fun hnil => absurd hnil houter) ?_
        intro r'' hr'' hvalues'' hlen'' hdelim'' _
        refine ih h ⟨?_, ?_, ?_, ?_, ?_⟩
        · rw [hr'']
        · rw [hvalues'', hvalues, hf.values]
        · rw [hlen'', hf.depth]
        · rw [hdelim'']
          rfl
        · exact fun hzero => absurd hzero (by dsimp only; omega)
      | @closed rest hrest hexpect hdepth =>
        cases hcounts : r.counts with
        | nil =>
          have := hf.depth
          rw [hcounts, List.length_nil] at this
          omega
        | cons n outer =>
          have hlen := hf.depth
          rw [hcounts, List.length_cons] at hlen
          have houter : outer ≠ [] := by
            rintro rfl
            rw [List.length_nil] at hlen
            omega
          refine answers_levelEnd ((htoken hrest).trans (token_levelEnd rest)) hcounts
            (.inr (hf.delim.trans (by rw [hexpect]; rfl))) (fun hnil => absurd hnil houter) ?_
          intro r' hr' hvalues hlen' hdelim' _
          refine ih h ⟨?_, ?_, ?_, ?_, ?_⟩
          · rw [hr']
          · rw [hvalues, hf.values]
          · rw [hlen']
            dsimp only
            omega
          · rw [hdelim', hexpect]
            rfl
          · exact fun hzero => absurd hzero (by dsimp only; omega)
      | @comma rest hrest hexpect hdepth =>
        have hdelim : r.expectDelim = true := hf.delim.trans (by rw [hexpect]; rfl)
        refine .step (.inl ⟨{ r with rest := rest, expectDelim := false }, ?_, ?_⟩)
        · rw [step_of_token ((htoken hrest).trans (token_delim rest)), Reader.take, Reader.delim,
            if_pos hdelim]
        · refine ih h ⟨rfl, hf.values, hf.depth, rfl, ?_⟩
          exact fun hzero => absurd hzero (by dsimp only; omega)
      | @quoted text element rest hrest hquoted hexpect =>
        obtain ⟨d, after, hafter, hd⟩ : ∃ d after, skip rest = d :: after ∧ (d = ',' ∨ d = '}') :=
          delimiter_of_loop h rfl
        have hopen : s.depth ≠ 0 := fun hzero => by
          obtain ⟨_, hbrace⟩ := hf.opened hzero
          rw [hrest] at hbrace
          exact absurd (List.cons.inj hbrace).1 (by decide)
        refine answers_elem ((htoken hrest).trans (token_quoted hquoted hafter hd))
          (hf.delim.trans (by rw [hexpect]; rfl))
          (fun hnil => hopen (by rw [← hf.depth, hnil]; rfl)) ?_
        intro r' hr' hvalues hlen' hdelim'
        refine ih h ⟨?_, ?_, ?_, hdelim', fun hzero => absurd hzero hopen⟩
        · rw [hr', skip_cons (head_skip hafter), hafter]
        · rw [hvalues, hf.values]
        · rw [hlen', hf.depth]
      | @plain c item rest hrest hitem hexpect =>
        obtain ⟨d, after, hafter, hd⟩ : ∃ d after, skip rest = d :: after ∧ (d = ',' ∨ d = '}') :=
          delimiter_of_loop h rfl
        have hplain : ∀ x ∈ c :: item, Plain x := fun x hx => plain_of_isPlain (hitem x hx)
        have hopen : s.depth ≠ 0 := fun hzero => by
          obtain ⟨_, hbrace⟩ := hf.opened hzero
          rw [hrest] at hbrace
          exact (hplain c List.mem_cons_self).2.1 (List.cons.inj hbrace).1
        -- the spaces before the delimiter are not part of the element
        have hsplit : rest = rest.takeWhile isSpace ++ d :: after := by
          rw [← hafter]
          exact List.takeWhile_append_dropWhile.symm
        have hspaces : ∀ x ∈ rest.takeWhile isSpace, isSpace x = true := fun x hx =>
          List.mem_takeWhile_imp hx
        have helement : token r.rest =
            some (.elem (if isNull (c :: item) then none else some (c :: item)), d :: after) := by
          have heq : c :: item ++ rest = c :: item ++ rest.takeWhile isSpace ++ d :: after := by
            rw [List.append_assoc, ← hsplit]
          exact (htoken hrest).trans ((congrArg token heq).trans (token_plain hplain hspaces hd))
        refine answers_elem helement (hf.delim.trans (by rw [hexpect]; rfl))
          (fun hnil => hopen (by rw [← hf.depth, hnil]; rfl)) ?_
        intro r' hr' hvalues hlen' hdelim'
        refine ih h ⟨?_, ?_, ?_, hdelim', fun hzero => absurd hzero hopen⟩
        · rw [hr', skip_cons (head_skip hafter), hafter]
        · rw [hvalues, hf.values]
        · rw [hlen', hf.depth]

/-- **A literal that is read is an array of the server**, with the same elements. -/
theorem arrayIn_of_elements {text : Text} {es : List Element} (h : arrayElements text = some es)
    (checked : Bool) (declared : Text → Outcome) :
    ArrayIn checked declared text (.read es) ∨
      (checked = true ∧ ArrayIn checked declared text .shape) := by
  have hscan : scan (text.length + 1) text = some (some es) := by
    rw [scan_ends (Nat.lt_succ_self _), h]
  unfold scan at hscan
  split at hscan
  next hhead =>
    cases hskip : skip text with
    | nil =>
      rw [hskip] at hhead
      cases hhead
    | cons c rest =>
      rw [hskip] at hhead hscan
      obtain rfl : c = '{' := Option.some.inj hhead
      have hself : skip ('{' :: rest) = '{' :: rest := skip_cons (by decide) rest
      have hanswers := answers_of_loop checked hscan (r := Reader.start ('{' :: rest))
        ⟨rfl, rfl, rfl, rfl, fun _ => ⟨rest, hself⟩⟩
      unfold ArrayIn
      rw [hskip]
      exact hanswers
  next => cases hscan

/-! ## What is written is read -/

/-- The texts of an element in a list. -/
inductive Written : Text → Element → Prop
  | null : Written ValueText.null none
  | quoted (text : Text) : Written (appendQuotedPostgresValue text) (some text)
  | plain {c : Char} {text : Text} (hplain : ∀ x ∈ c :: text, isPlain x = true)
      (hnull : isNull (c :: text) = false) : Written (c :: text) (some (c :: text))

theorem quoted_append (text rest : Text) :
    quoted (text.flatMap (fun c => if c = '\\' ∨ c = '"' then ['\\', c] else [c]) ++ '"' :: rest) =
      some (text, rest) := by
  induction text with
  | nil => exact quoted_quote rest
  | cons c text ih =>
    rw [List.flatMap_cons, List.append_assoc]
    split
    next hc =>
      rw [List.cons_append, List.cons_append, List.nil_append, quoted_escape, ih]
      rfl
    next hc =>
      rw [List.cons_append, List.nil_append, quoted_char (fun h => hc (.inr h))
        (fun h => hc (.inl h)), ih]
      rfl

theorem takeWhile_plain {c d : Char} {text : Text} (hplain : ∀ x ∈ c :: text, isPlain x = true)
    (hd : isPlain d = false) (rest : Text) :
    (c :: text ++ d :: rest).takeWhile isPlain = c :: text ∧
      (c :: text ++ d :: rest).dropWhile isPlain = d :: rest := by
  rw [List.takeWhile_append_of_pos hplain, List.dropWhile_append_of_pos hplain,
    List.takeWhile_cons_of_neg (by simp [hd]), List.dropWhile_cons_of_neg (by simp [hd]),
    List.append_nil]
  exact ⟨rfl, rfl⟩

/-- A written element is one turn of the scan. -/
theorem turn_written {w : Text} {e : Element} (h : Written w e) {d : Char}
    (hd : d = ',' ∨ d = '}') (rest : Text) (elements : List Element) (depth : Nat) :
    Scan.turn { rest := w ++ d :: rest, elements := elements, depth := depth, expect := true } =
      .next { rest := d :: rest, elements := elements ++ [e], depth := depth, expect := false } := by
  have hstop : isPlain d = false := by
    rcases hd with rfl | rfl
    · rfl
    · rfl
  have hturn {c : Char} {text : Text} (hplain : ∀ x ∈ c :: text, isPlain x = true) :
      Scan.turn { rest := c :: text ++ d :: rest, elements := elements, depth := depth, expect := true } =
        .next { rest := d :: rest,
                elements := elements ++ [if isNull (c :: text) then none else some (c :: text)],
                depth := depth, expect := false } := by
    obtain ⟨hspace, hopen, hclose, hquote, hcomma, -⟩ := plain_of_isPlain (hplain c List.mem_cons_self)
    obtain ⟨htake, hdrop⟩ := takeWhile_plain hplain hstop rest
    have hskip : skip (c :: text ++ d :: rest) = c :: (text ++ d :: rest) := skip_cons hspace _
    unfold Scan.turn
    rw [hskip]
    simp only [hopen, hclose, hquote, hcomma, false_and, if_false, if_true]
    rw [← List.cons_append, htake, hdrop, if_neg (List.cons_ne_nil _ _)]
  cases h with
  | null =>
    exact hturn (List.all_eq_true.1 (show ['N', 'U', 'L', 'L'].all isPlain = true by decide))
  | quoted text =>
    have hskip : skip (appendQuotedPostgresValue text ++ d :: rest) =
        '"' :: (text.flatMap (fun c => if c = '\\' ∨ c = '"' then ['\\', c] else [c]) ++
          '"' :: d :: rest) := by
      rw [appendQuotedPostgresValue, List.append_assoc, List.cons_append, skip_cons (by decide)]
      rfl
    unfold Scan.turn
    rw [hskip]
    simp only [quotedElement_eq, quoted_append]
    rfl
  | plain hplain hnull =>
    rw [hturn hplain, if_neg (by simp [hnull])]

/-- A list of written elements. -/
def listText (ws : List Text) : Text := '{' :: List.intercalate [','] ws ++ ['}']

theorem intercalate_cons (sep w : Text) (ws : List Text) :
    List.intercalate sep (w :: ws) = w ++ ws.flatMap fun v => sep ++ v := by
  induction ws generalizing w with
  | nil => simp [List.intercalate]
  | cons v ws ih =>
    rw [List.flatMap_cons, List.append_assoc, ← ih v]
    simp [List.intercalate]

/-- The elements after the first, each behind its comma. -/
theorem loop_commas {ws : List Text} {es : List Element} (h : List.Forall₂ Written ws es)
    (elements : List Element) {fuel : Nat} (hfuel : 2 * ws.length < fuel) :
    loop fuel ⟨(ws.flatMap fun w => ',' :: w) ++ ['}'], elements, 1, false⟩ =
      some (some (elements ++ es)) := by
  induction h generalizing elements fuel with
  | nil =>
    obtain ⟨n, rfl⟩ : ∃ n, fuel = n + 1 := ⟨fuel - 1, by omega⟩
    rw [loop, List.append_nil]
    rfl
  | @cons w e ws es hw _ ih =>
    rw [List.length_cons] at hfuel
    obtain ⟨n, rfl⟩ : ∃ n, fuel = n + 2 := ⟨fuel - 2, by omega⟩
    have hcomma : Scan.turn ⟨',' :: w ++ ((ws.flatMap fun w => ',' :: w) ++ ['}']), elements, 1, false⟩ =
        .next ⟨w ++ ((ws.flatMap fun w => ',' :: w) ++ ['}']), elements, 1, true⟩ := by
      unfold Scan.turn
      rw [List.cons_append, skip_cons (by decide)]
      rfl
    obtain ⟨d, after, htail, hd⟩ : ∃ d after,
        (ws.flatMap fun w => ',' :: w) ++ ['}'] = d :: after ∧ (d = ',' ∨ d = '}') := by
      cases ws with
      | nil => exact ⟨_, _, rfl, .inr rfl⟩
      | cons v ws => exact ⟨_, _, rfl, .inl rfl⟩
    have hfewer : 2 * ws.length < n := by omega
    have hlater := ih (elements ++ [e]) hfewer
    rw [List.flatMap_cons, List.append_assoc, loop, hcomma]
    dsimp only
    rw [loop]
    rw [htail] at hlater ⊢
    rw [turn_written hw hd]
    dsimp only
    rw [hlater, List.append_assoc]
    rfl

theorem written_head {w : Text} {e : Element} (h : Written w e) :
    ∃ c more, w = c :: more ∧ isSpace c = false ∧ c ≠ '}' := by
  cases h with
  | null => exact ⟨_, _, rfl, rfl, by decide⟩
  | quoted text => exact ⟨_, _, rfl, rfl, by decide⟩
  | plain hplain =>
    obtain ⟨hspace, -, hclose, -⟩ := plain_of_isPlain (hplain _ List.mem_cons_self)
    exact ⟨_, _, rfl, hspace, hclose⟩

/-- **A written list is read back.** -/
theorem arrayElements_listText {ws : List Text} {es : List Element}
    (h : List.Forall₂ Written ws es) : arrayElements (listText ws) = some es := by
  have hloop : ∃ fuel, loop fuel ⟨listText ws, [], 0, true⟩ = some (some es) := by
    cases h with
    | nil => exact ⟨1, rfl⟩
    | @cons w e ws es hw hmore =>
      obtain ⟨d, after, htail, hd⟩ : ∃ d after,
          (ws.flatMap fun w => ',' :: w) ++ ['}'] = d :: after ∧ (d = ',' ∨ d = '}') := by
        cases ws with
        | nil => exact ⟨_, _, rfl, .inr rfl⟩
        | cons v ws => exact ⟨_, _, rfl, .inl rfl⟩
      have htext : listText (w :: ws) = '{' :: (w ++ d :: after) := by
        unfold listText
        rw [intercalate_cons, ← htail, List.cons_append, List.append_assoc]
        rfl
      have hopen : Scan.turn ⟨listText (w :: ws), [], 0, true⟩ =
          .next ⟨w ++ d :: after, [], 1, true⟩ := by
        obtain ⟨c, more, rfl, hspace, hclose⟩ := written_head hw
        have hskip : skip (c :: more ++ d :: after) = c :: (more ++ d :: after) :=
          skip_cons hspace _
        rw [htext]
        unfold Scan.turn
        rw [skip_cons (by decide)]
        show Scan.opened _ _ = _
        unfold Scan.opened
        rw [hskip]
        split
        next hbrace => exact absurd (List.cons.inj hbrace).1 hclose
        next => rfl
      have hlater := loop_commas hmore [e] (Nat.lt_succ_self (2 * ws.length))
      refine ⟨2 * ws.length + 3, ?_⟩
      rw [htail] at hlater
      rw [loop, hopen]
      dsimp only
      rw [loop, turn_written hw hd]
      exact hlater
  obtain ⟨fuel, hfuel⟩ := hloop
  have hself : skip (listText ws) = listText ws := skip_cons (by decide) _
  have hscan : scan (max fuel (listText ws).length + 1) (listText ws) = some (some es) := by
    unfold scan
    rw [hself, if_pos (by rfl)]
    exact loop_mono _ hfuel (by omega)
  rw [scan_ends (by omega)] at hscan
  exact Option.some.inj hscan

/-- A reader inside an array of one level. -/
def within (rest : Text) (values : List Element) (n : Nat) (expectDelim frozen : Bool) : Reader :=
  { rest := rest, values := values, counts := [n], expectDelim := expectDelim, ndim := 1,
    frozen := frozen, dims := fun _ => none }

/-- The elements of a list of texts. -/
theorem written_texts (es : List Element) :
    List.Forall₂ Written (es.map (nullOr appendQuotedArrayString)) es := by
  induction es with
  | nil => exact .nil
  | cons e es ih =>
    rw [List.map_cons]
    refine .cons ?_ ih
    cases e with
    | none => exact .null
    | some text => exact .quoted text

/-- **Array literals round trip.**  What is written is read back; what is read is read by
the server, with the same elements and no others, unless it refuses the shape of the array;
and the scan ends for every text. -/
theorem array_literals :
    (∀ es : List Element, ∃ text, listString (.utf8 es) = .ok text ∧ arrayElements text = some es) ∧
      (∀ text es, arrayElements text = some es → ∀ declared,
        (∀ o, ArrayIn false declared text o ↔ o = .read es) ∧
          ((∀ o, ArrayIn true declared text o ↔ o = .read es) ∨
            ∀ o, ArrayIn true declared text o ↔ o = .shape)) ∧
      ∀ text fuel, text.length < fuel → scan fuel text = some (arrayElements text) := by
  have hanswer {checked : Bool} {declared : Text → Outcome} {text : Text} {o : Outcome}
      (h : ArrayIn checked declared text o) (o' : Outcome) :
      ArrayIn checked declared text o' ↔ o' = o :=
    ⟨fun h' => arrayIn_unique h' h, fun h' => h' ▸ h⟩
  refine ⟨fun es => ?_, fun text es h declared => ⟨?_, ?_⟩, fun text fuel h => scan_ends h⟩
  · exact ⟨_, rfl, arrayElements_listText (written_texts es)⟩
  · rcases arrayIn_of_elements h false declared with hread | ⟨hfalse, -⟩
    · exact hanswer hread
    · cases hfalse
  · rcases arrayIn_of_elements h true declared with hread | ⟨-, hshape⟩
    · exact .inl (hanswer hread)
    · exact .inr (hanswer hshape)

theorem array_literals_at :
    ∃ text, listString (.utf8 [some ['a', '"'], none]) = .ok text ∧
      (∀ o, ArrayIn false (fun _ => .malformed) text o ↔ o = .read [some ['a', '"'], none]) ∧
        scan (text.length + 1) text = some (some [some ['a', '"'], none]) := by
  obtain ⟨hwritten, hread, hends⟩ := array_literals
  obtain ⟨text, htext, helements⟩ := hwritten [some ['a', '"'], none]
  refine ⟨text, htext, (hread text _ helements _).1, ?_⟩
  rw [hends text _ (Nat.lt_succ_self _), helements]

end Plenora.Postgres.ArrayLiteral
