import Plenora.Core.StrictJson

/-!
# Repeated keys of a JSON text

`json_duplicate_keys` scans a text with a stack of frames, one for every open array and
object, and looks only at braces, brackets, commas and strings.

    d.WellFormed → scan fuel d.text = some (some (decide d.value.RepeatsKey))  (scan_document)
-/

namespace Plenora.Postgres.JsonKeys

open Plenora.Lib Plenora.Lib.Json Plenora.Core.StrictJson

/-! ## Strings -/

/-- `u32::from_str_radix` with radix 16, which takes a sign. -/
def fromStrRadix (digits : Text) : Option Nat :=
  let digits := if digits.head? = some '+' then digits.tail else digits
  if digits = [] then none else hexNumber digits

def jsonHex4 (text : Text) : Option Nat :=
  if text.length < 4 then none else fromStrRadix (text.take 4)

/-- `char::from_u32`. -/
def fromU32 (n : Nat) : Option Char := if n.isValidChar then some (Char.ofNat n) else none

/-- The character of an escape, after its backslash, and the text after it. -/
def jsonEscape : Text → Option (Char × Text)
  | [] => none
  | e :: rest =>
    if e = 'u' then
      (jsonHex4 rest).bind fun high =>
        if 0xD800 ≤ high ∧ high < 0xDC00 then
          if (rest.drop 4).head? = some '\\' ∧ ((rest.drop 4).drop 1).head? = some 'u' then
            (jsonHex4 (rest.drop 6)).bind fun low =>
              if 0xDC00 ≤ low ∧ low < 0xE000 then
                (fromU32 (0x10000 + (high - 0xD800) * 1024 + (low - 0xDC00))).map fun c =>
                  (c, rest.drop 10)
              else none
          else none
        else (fromU32 high).map fun c => (c, rest.drop 4)
    else (escaped e).map fun c => (c, rest)

/-- The string after its quote, with its escapes decoded, and the text after it; a turn for
every character is enough. -/
def jsonString : Nat → Text → Text → Option (Text × Text)
  | 0, _, _ => none
  | _ + 1, _, [] => none
  | fuel + 1, out, c :: rest =>
    if c = '"' then some (out, rest)
    else if c = '\\' then (jsonEscape rest).bind fun p => jsonString fuel (out ++ [p.1]) p.2
    else jsonString fuel (out ++ [c]) rest

/-! ## The scan -/

inductive Frame where
  | object (keys : List Text) (expectKey : Bool)
  | array

structure Scan where
  rest : Text
  stack : List Frame

inductive Turn where
  | next (s : Scan)
  | answer (repeats : Option Bool)

/-- A comma lets an object expect its next key. -/
def afterComma : List Frame → List Frame
  | .object keys _ :: outer => .object keys true :: outer
  | stack => stack

/-- A string, which is a key where the innermost object expects one. -/
def afterString (value rest : Text) : List Frame → Turn
  | .object keys true :: outer =>
    if value ∈ keys then .answer (some true)
    else .next { rest := rest, stack := .object (value :: keys) false :: outer }
  | stack => .next { rest := rest, stack := stack }

def Scan.turn (s : Scan) : Turn :=
  match s.rest with
  | [] => .answer (some false)
  | c :: rest =>
    if c = '{' then .next { rest := rest, stack := .object [] true :: s.stack }
    else if c = '[' then .next { rest := rest, stack := .array :: s.stack }
    else if c = '}' ∨ c = ']' then .next { rest := rest, stack := s.stack.tail }
    else if c = ',' then .next { rest := rest, stack := afterComma s.stack }
    else if c = '"' then
      match jsonString (rest.length + 1) [] rest with
      | none => .answer none
      | some (value, rest) => afterString value rest s.stack
    else .next { rest := rest, stack := s.stack }

/-- The loop with `fuel` turns, `none` when they are not enough. -/
def loop : Nat → Scan → Option (Option Bool)
  | 0, _ => none
  | fuel + 1, s =>
    match s.turn with
    | .next s => loop fuel s
    | .answer repeats => some repeats

def scan (fuel : Nat) (text : Text) : Option (Option Bool) :=
  loop fuel { rest := text, stack := [] }

def jsonDuplicateKeys (text : Text) : Option Bool := (scan (text.length + 1) text).getD none

example : jsonDuplicateKeys "\x7b\"a\": [\x7b\"b\": 1\x7d], \"\\u0061\": 2\x7d".toList = some true := by
  decide +kernel

example : jsonDuplicateKeys "[\x7b\"a\": \"a\"\x7d, \x7b\"a\": 1, \"A\": 2\x7d]".toList = some false := by
  decide +kernel

/-! ## Strings are decoded -/

theorem hexDigit_plus : hexDigit '+' = none := by decide

/-- Four digits are the number they write. -/
theorem jsonHex4_append {digits : Text} {n : Nat} (h : IsCode digits n) (rest : Text) :
    jsonHex4 (digits ++ rest) = some n ∧ (digits ++ rest).drop 4 = rest := by
  obtain ⟨hlen, hnumber⟩ := h
  have htake : (digits ++ rest).take 4 = digits := List.take_left' hlen
  have hplus : digits.head? ≠ some '+' := by
    intro hhead
    cases digits with
    | nil => cases hhead
    | cons c more =>
      obtain rfl : c = '+' := Option.some.inj hhead
      unfold hexNumber at hnumber
      rw [List.foldlM_cons, hexDigit_plus] at hnumber
      cases hnumber
  have hne : digits ≠ [] := by
    rintro rfl
    cases hlen
  refine ⟨?_, List.drop_left' hlen⟩
  unfold jsonHex4
  rw [if_neg (by rw [List.length_append]; omega), htake]
  unfold fromStrRadix
  simp only [if_neg hplus, if_neg hne, hnumber]

theorem fromU32_code {n : Nat} (h : n < 0xD800 ∨ (0xE000 ≤ n ∧ n < 0x110000)) :
    fromU32 n = some (Char.ofNat n) := by
  unfold fromU32
  rw [if_pos]
  rcases h with h | h
  · exact .inl h
  · exact .inr ⟨by omega, h.2⟩

theorem isCode_lt {digits : Text} {n : Nat} (h : IsCode digits n) : n < 0x10000 := by
  have hlt := hexNumber_lt h.2
  rw [h.1] at hlt
  exact hlt

/-- **An escape is its character.** -/
theorem jsonEscape_code {digits : Text} {n : Nat} (h : IsCode digits n)
    (hsurrogate : n < 0xD800 ∨ 0xE000 ≤ n) (rest : Text) :
    jsonEscape ('u' :: digits ++ rest) = some (Char.ofNat (codeOf digits), rest) := by
  obtain ⟨hhex, hdrop⟩ := jsonHex4_append h rest
  have hlt := isCode_lt h
  unfold jsonEscape
  rw [List.cons_append]
  simp only [if_true, hhex, Option.bind_some, hdrop]
  rw [if_neg (by omega), fromU32_code (by omega), codeOf, h.2]
  rfl

theorem jsonEscape_pair {high low : Text} {m n : Nat} (hhigh : IsCode high m) (hlow : IsCode low n)
    (hm : 0xD800 ≤ m ∧ m < 0xDC00) (hn : 0xDC00 ≤ n ∧ n < 0xE000) (rest : Text) :
    jsonEscape ('u' :: high ++ '\\' :: 'u' :: low ++ rest) =
      some (Char.ofNat (ofPair (codeOf high) (codeOf low)), rest) := by
  obtain ⟨hhex, hdrop⟩ := jsonHex4_append hhigh ('\\' :: 'u' :: low ++ rest)
  obtain ⟨hhex', hdrop'⟩ := jsonHex4_append hlow rest
  have hsix : (high ++ ('\\' :: 'u' :: low ++ rest)).drop 6 = low ++ rest := by
    rw [show 6 = 4 + 2 from rfl, ← List.drop_drop, hdrop]
    rfl
  have hten : (high ++ ('\\' :: 'u' :: low ++ rest)).drop 10 = rest := by
    rw [show 10 = 6 + 4 from rfl, ← List.drop_drop, hsix, hdrop']
  unfold jsonEscape
  rw [List.cons_append, List.cons_append, List.append_assoc]
  simp only [if_true, hhex, Option.bind_some, hdrop, hsix, hten, hhex']
  rw [if_pos hm, if_pos ⟨rfl, rfl⟩, if_pos hn, fromU32_code (by omega), codeOf, hhigh.2, codeOf,
    hlow.2]
  rfl

theorem length_piece (p : Piece) : 0 < p.text.length := by
  cases p with
  | char c => exact Nat.one_pos
  | escape e => exact Nat.two_pos
  | code digits => exact Nat.succ_pos _
  | pair high low => exact Nat.succ_pos _

/-- A piece is one turn of the loop over a string. -/
theorem jsonString_piece {p : Piece} (h : p.WellFormed) (fuel : Nat) (out rest : Text) :
    jsonString (fuel + 1) out (p.text ++ rest) = jsonString fuel (out ++ [p.decode]) rest := by
  have hescape {text : Text} {c : Char} (hchar : jsonEscape text = some (c, rest)) :
      jsonString (fuel + 1) out ('\\' :: text) = jsonString fuel (out ++ [c]) rest := by
    rw [jsonString, if_neg (by decide), if_pos rfl, hchar]
    rfl
  cases p with
  | char c =>
    obtain ⟨hquote, hback, -⟩ := h
    show jsonString (fuel + 1) out (c :: rest) = _
    rw [jsonString, if_neg hquote, if_neg hback]
    rfl
  | escape e =>
    obtain ⟨c, hc⟩ := h
    have hu : e ≠ 'u' := by
      rintro rfl
      have hnone : escaped 'u' = none := by decide
      rw [hnone] at hc
      cases hc
    have hchar : jsonEscape (e :: rest) = some (c, rest) := by
      unfold jsonEscape
      simp only [if_neg hu, hc, Option.map_some]
    refine (hescape hchar).trans ?_
    rw [Piece.decode, hc]
    rfl
  | code digits =>
    obtain ⟨n, hn, hsurrogate⟩ := h
    exact hescape (jsonEscape_code hn hsurrogate rest)
  | pair high low =>
    obtain ⟨m, n, hm, hn, hm', hm'', hn', hn''⟩ := h
    have hchar := jsonEscape_pair hm hn ⟨hm', hm''⟩ ⟨hn', hn''⟩ rest
    exact hescape hchar

/-- **A string is read to its end**, decoded. -/
theorem jsonString_literal {pieces : List Piece} (h : ∀ p ∈ pieces, p.WellFormed) {fuel : Nat}
    (hfuel : pieces.length < fuel) (out rest : Text) :
    jsonString fuel out (pieces.flatMap Piece.text ++ '"' :: rest) =
      some (out ++ decode pieces, rest) := by
  induction pieces generalizing fuel out with
  | nil =>
    obtain ⟨n, rfl⟩ : ∃ n, fuel = n + 1 := ⟨fuel - 1, by omega⟩
    rw [List.flatMap_nil, List.nil_append, jsonString, if_pos rfl]
    simp [decode]
  | cons p pieces ih =>
    obtain ⟨hp, hmore⟩ := List.forall_mem_cons.1 h
    rw [List.length_cons] at hfuel
    obtain ⟨n, rfl⟩ : ∃ n, fuel = n + 1 := ⟨fuel - 1, by omega⟩
    rw [List.flatMap_cons, List.append_assoc, jsonString_piece hp, ih hmore (by omega),
      List.append_assoc]
    rfl

theorem length_pieces (pieces : List Piece) : pieces.length ≤ (pieces.flatMap Piece.text).length := by
  induction pieces with
  | nil => exact Nat.le_refl _
  | cons p pieces ih =>
    have := length_piece p
    rw [List.flatMap_cons, List.length_append, List.length_cons]
    omega

/-! ## Runs of the scan -/

/-- A turn that goes on, and has read something. -/
def Steps (s t : Scan) : Prop := s.turn = .next t ∧ t.rest.length < s.rest.length

def Reaches (s t : Scan) : Prop := Relation.ReflTransGen Steps s t

/-- The scan finds a repeated key, or goes on from `t`. -/
def Leads (s : Scan) (found : Prop) (t : Scan) : Prop :=
  (found → ∃ u, Reaches s u ∧ u.turn = .answer (some true)) ∧ (¬ found → Reaches s t)

theorem Leads.before {s m t : Scan} {found : Prop} (h : Reaches s m) (hm : Leads m found t) :
    Leads s found t := by
  refine ⟨fun hfound => ?_, fun hnot => h.trans (hm.2 hnot)⟩
  obtain ⟨u, hu, hturn⟩ := hm.1 hfound
  exact ⟨u, h.trans hu, hturn⟩

theorem Leads.andThen {s m t : Scan} {p q : Prop} (h : Leads s p m) (hm : Leads m q t) :
    Leads s (p ∨ q) t := by
  by_cases hp : p
  · exact ⟨fun _ => h.1 hp, fun hnot => absurd (.inl hp) hnot⟩
  · have hrest := Leads.before (h.2 hp) hm
    exact ⟨fun hpq => hrest.1 (hpq.resolve_left hp), fun hnot => hrest.2 fun hq => hnot (.inr hq)⟩

theorem Leads.thenReaches {s m t : Scan} {found : Prop} (h : Leads s found m) (hm : Reaches m t) :
    Leads s found t :=
  ⟨h.1, fun hnot => (h.2 hnot).trans hm⟩

theorem Leads.congr {s t : Scan} {p q : Prop} (h : Leads s p t) (hiff : q ↔ p) : Leads s q t :=
  ⟨fun hq => h.1 (hiff.1 hq), fun hq => h.2 fun hp => hq (hiff.2 hp)⟩

theorem Leads.of_reaches {s t : Scan} {found : Prop} (h : Reaches s t) (hnot : ¬ found) :
    Leads s found t :=
  ⟨fun hfound => absurd hfound hnot, fun _ => h⟩

theorem loop_of_reaches {s t : Scan} {answer : Option Bool} (h : Reaches s t)
    (ht : t.turn = .answer answer) {fuel : Nat} (hfuel : s.rest.length < fuel) :
    loop fuel s = some answer := by
  induction h using Relation.ReflTransGen.head_induction_on generalizing fuel with
  | refl =>
    obtain ⟨n, rfl⟩ : ∃ n, fuel = n + 1 := ⟨fuel - 1, by omega⟩
    rw [loop, ht]
  | head hstep _ ih =>
    obtain ⟨n, rfl⟩ : ∃ n, fuel = n + 1 := ⟨fuel - 1, by omega⟩
    rw [loop, hstep.1]
    exact ih (by have := hstep.2; omega)

/-! ## The parts of a text -/

/-- A character the scan passes over. -/
def Neutral (c : Char) : Prop :=
  c ≠ '{' ∧ c ≠ '[' ∧ c ≠ '}' ∧ c ≠ ']' ∧ c ≠ ',' ∧ c ≠ '"'

instance (c : Char) : Decidable (Neutral c) := by
  unfold Neutral
  infer_instance

theorem steps_neutral {c : Char} (h : Neutral c) (rest : Text) (stack : List Frame) :
    Steps ⟨c :: rest, stack⟩ ⟨rest, stack⟩ := by
  obtain ⟨hopen, hbracket, hclose, hclose', hcomma, hquote⟩ := h
  refine ⟨?_, Nat.lt_succ_self _⟩
  unfold Scan.turn
  simp only [hopen, hbracket, hclose, hclose', hcomma, hquote, or_self, if_false]

theorem reaches_neutral {text : Text} (h : ∀ c ∈ text, Neutral c) (rest : Text)
    (stack : List Frame) : Reaches ⟨text ++ rest, stack⟩ ⟨rest, stack⟩ := by
  induction text with
  | nil => exact .refl
  | cons c text ih =>
    obtain ⟨hc, hmore⟩ := List.forall_mem_cons.1 h
    exact .head (steps_neutral hc _ stack) (ih hmore)

theorem neutral_space {c : Char} (h : isSpace c = true) : Neutral c := by
  unfold isSpace at h
  simp only [Bool.or_eq_true, decide_eq_true_eq] at h
  rcases h with ((rfl | rfl) | rfl) | rfl
  all_goals decide

theorem reaches_spaces {spaces : Text} (h : IsSpace spaces) (rest : Text) (stack : List Frame) :
    Reaches ⟨spaces ++ rest, stack⟩ ⟨rest, stack⟩ :=
  reaches_neutral (fun c hc => neutral_space (h c hc)) rest stack

theorem neutral_digits {l : Text} (h : Decimal.AllDigits l) : ∀ c ∈ l, Neutral c := by
  intro c hc
  have hbounds := Decimal.isDigit_bounds (h c hc)
  have hne (d : Char) (hd : d.toNat < 48 ∨ 57 < d.toNat) : c ≠ d := by
    rintro rfl
    omega
  exact ⟨hne _ (by decide), hne _ (by decide), hne _ (by decide), hne _ (by decide),
    hne _ (by decide), hne _ (by decide)⟩

theorem neutral_append {l m : Text} (hl : ∀ c ∈ l, Neutral c) (hm : ∀ c ∈ m, Neutral c) :
    ∀ c ∈ l ++ m, Neutral c := fun c hc => (List.mem_append.1 hc).elim (hl c) (hm c)

theorem neutral_list {l : Text} (h : l.all (fun c => decide (Neutral c)) = true) :
    ∀ c ∈ l, Neutral c := fun c hc => of_decide_eq_true (List.all_eq_true.1 h c hc)

/-- Numbers, `null`, `true` and `false` have no character of the structure. -/
theorem neutral_scalar {raw : Text} (h : IsScalar raw) : ∀ c ∈ raw, Neutral c := by
  rcases h with rfl | rfl | rfl | ⟨sign, integer, fraction, exponent, rfl, hsign, hinteger,
    hfraction, hexponent⟩
  · exact neutral_list (by decide +kernel)
  · exact neutral_list (by decide +kernel)
  · exact neutral_list (by decide +kernel)
  · refine neutral_append (neutral_append (neutral_append ?_ ?_) ?_) ?_
    · rcases hsign with rfl | rfl
      · exact neutral_list rfl
      · exact neutral_list (by decide)
    · rcases hinteger with rfl | ⟨hdigits, -⟩
      · exact neutral_list (by decide)
      · exact neutral_digits hdigits.2
    · rcases hfraction with rfl | ⟨ds, rfl, hdigits⟩
      · exact neutral_list rfl
      · exact List.forall_mem_cons.2 ⟨by decide, neutral_digits hdigits.2⟩
    · rcases hexponent with rfl | ⟨e, plus, ds, rfl, he, hplus, hdigits⟩
      · exact neutral_list rfl
      · refine neutral_append (List.forall_mem_cons.2 ⟨?_, ?_⟩) (neutral_digits hdigits.2)
        · rcases he with rfl | rfl
          · decide
          · decide
        · rcases hplus with rfl | rfl | rfl
          · exact neutral_list rfl
          · exact neutral_list (by decide)
          · exact neutral_list (by decide)

/-- A place where a string is a value. -/
def NoKey (stack : List Frame) : Prop := ∀ keys outer, stack ≠ .object keys true :: outer

theorem noKey_nil : NoKey [] := fun _ _ h => List.cons_ne_nil _ _ h.symm

theorem noKey_array (stack : List Frame) : NoKey (.array :: stack) := by
  intro keys outer h
  cases h

theorem noKey_value (keys : List Text) (stack : List Frame) : NoKey (.object keys false :: stack) := by
  intro keys outer h
  cases h

theorem turn_literal {pieces : List Piece} (h : ∀ p ∈ pieces, p.WellFormed) (rest : Text)
    (stack : List Frame) :
    Scan.turn ⟨literal pieces ++ rest, stack⟩ = afterString (decode pieces) rest stack ∧
      rest.length < (literal pieces ++ rest).length := by
  have htext : literal pieces ++ rest = '"' :: (pieces.flatMap Piece.text ++ '"' :: rest) := by
    unfold literal
    rw [List.append_assoc, List.cons_append]
    rfl
  have hlen := length_pieces pieces
  constructor
  · rw [htext]
    unfold Scan.turn
    have hfuel : pieces.length < (pieces.flatMap Piece.text ++ '"' :: rest).length + 1 := by
      rw [List.length_append]
      omega
    have hstring := jsonString_literal h hfuel [] rest
    simp only [hstring]
    rfl
  · rw [htext, List.length_cons, List.length_append, List.length_cons]
    omega

theorem steps_literal {pieces : List Piece} (h : ∀ p ∈ pieces, p.WellFormed) (rest : Text)
    {stack : List Frame} (hstack : NoKey stack) :
    Steps ⟨literal pieces ++ rest, stack⟩ ⟨rest, stack⟩ := by
  obtain ⟨hturn, hlen⟩ := turn_literal h rest stack
  refine ⟨hturn.trans ?_, hlen⟩
  unfold afterString
  split
  next keys outer => exact absurd rfl (hstack keys outer)
  next => rfl

/-- **A key is looked up among those before it**, and the scan goes on to the value. -/
theorem leads_key {key : Key} (h : key.WellFormed) (seen : List Text) (rest : Text)
    (stack : List Frame) :
    Leads ⟨key.text ++ rest, .object seen true :: stack⟩ (decode key.pieces ∈ seen)
      ⟨rest, .object (decode key.pieces :: seen) false :: stack⟩ := by
  obtain ⟨hbefore, hpieces, hbetween, hafter⟩ := h
  have htext : key.text ++ rest = key.before ++ (literal key.pieces ++
      (key.between ++ ':' :: (key.after ++ rest))) := by
    unfold Key.text
    simp only [List.append_assoc, List.cons_append]
  rw [htext]
  refine .before (reaches_spaces hbefore _ _) ?_
  obtain ⟨hturn, hlen⟩ := turn_literal hpieces (key.between ++ ':' :: (key.after ++ rest))
    (.object seen true :: stack)
  by_cases hmem : decode key.pieces ∈ seen
  · refine ⟨fun _ => ⟨_, .refl, hturn.trans (if_pos hmem)⟩, fun hnot => absurd hmem hnot⟩
  · refine .of_reaches ?_ hmem
    refine .head ⟨hturn.trans (if_neg hmem), hlen⟩ ?_
    refine (reaches_spaces hbetween _ _).trans ?_
    exact .head (steps_neutral (by decide) _ _) (reaches_spaces hafter _ _)

theorem steps_comma (rest : Text) (stack : List Frame) :
    Steps ⟨',' :: rest, stack⟩ ⟨rest, afterComma stack⟩ := ⟨rfl, Nat.lt_succ_self _⟩

theorem steps_close {c : Char} (h : c = '}' ∨ c = ']') (rest : Text) (frame : Frame)
    (stack : List Frame) : Steps ⟨c :: rest, frame :: stack⟩ ⟨rest, stack⟩ := by
  rcases h with rfl | rfl
  · exact ⟨rfl, Nat.lt_succ_self _⟩
  · exact ⟨rfl, Nat.lt_succ_self _⟩

/-- How the scan goes over a part of a text. -/
def Scans : {kind : Kind} → Tree kind → Prop
  | .value, x => ∀ rest stack, NoKey stack →
    Leads ⟨x.text ++ rest, stack⟩ x.RepeatsKey ⟨rest, stack⟩
  | .items, x => ∀ rest stack,
    Leads ⟨x.text ++ ']' :: rest, .array :: stack⟩ x.RepeatsKey ⟨rest, stack⟩
  | .members, x => ∀ seen rest stack, seen.Nodup →
    Leads ⟨x.text ++ '}' :: rest, .object seen true :: stack⟩ (x.Found seen) ⟨rest, stack⟩

/-- **The scan finds what the tree repeats**, part by part. -/
theorem scans_tree {kind : Kind} {x : Tree kind} (h : x.WellFormed) : Scans x := by
  induction x with
  | scalar raw =>
    intro rest stack _
    exact .of_reaches (reaches_neutral (neutral_scalar h) rest stack)
      (Tree.not_repeatsKey_of_nil rfl)
  | string pieces =>
    intro rest stack hstack
    exact .of_reaches (.single (steps_literal h rest hstack)) (Tree.not_repeatsKey_of_nil rfl)
  | emptyArray spaces =>
    intro rest stack _
    have htext : (Tree.emptyArray spaces).text ++ rest = '[' :: (spaces ++ ']' :: rest) := by
      rw [Tree.text, List.append_assoc, List.cons_append]
      rfl
    rw [htext]
    refine .of_reaches ?_ (Tree.not_repeatsKey_of_nil rfl)
    refine .head ⟨rfl, Nat.lt_succ_self _⟩ ((reaches_spaces h _ (.array :: stack)).trans ?_)
    exact .single (steps_close (.inr rfl) rest _ stack)
  | array all ih =>
    intro rest stack _
    have htext : (Tree.array all).text ++ rest = '[' :: (all.text ++ ']' :: rest) := by
      rw [Tree.text, List.append_assoc, List.cons_append]
      rfl
    rw [htext]
    exact .before (.single ⟨rfl, Nat.lt_succ_self _⟩) (ih h rest stack)
  | emptyObject spaces =>
    intro rest stack _
    have htext : (Tree.emptyObject spaces).text ++ rest = '{' :: (spaces ++ '}' :: rest) := by
      rw [Tree.text, List.append_assoc, List.cons_append]
      rfl
    rw [htext]
    refine .of_reaches ?_ (Tree.not_repeatsKey_of_nil rfl)
    refine .head ⟨rfl, Nat.lt_succ_self _⟩ ((reaches_spaces h _ (.object [] true :: stack)).trans ?_)
    exact .single (steps_close (.inl rfl) rest _ stack)
  | object all ih =>
    intro rest stack _
    have htext : (Tree.object all).text ++ rest = '{' :: (all.text ++ '}' :: rest) := by
      rw [Tree.text, List.append_assoc, List.cons_append]
      rfl
    rw [htext]
    have hall := (ih h [] rest stack List.nodup_nil).congr (Tree.found_object all).symm
    exact .before (.single ⟨rfl, Nat.lt_succ_self _⟩) hall
  | item before v after ih =>
    obtain ⟨hbefore, hv, hafter⟩ := h
    intro rest stack
    rw [Tree.text, List.append_assoc, List.append_assoc]
    refine .before (reaches_spaces hbefore _ _) ?_
    have hvalue := ih hv (after ++ ']' :: rest) (.array :: stack) (noKey_array stack)
    refine hvalue.thenReaches ((reaches_spaces hafter _ _).trans ?_)
    exact .single (steps_close (.inr rfl) rest _ stack)
  | items before v after more ihv ihmore =>
    obtain ⟨hbefore, hv, hafter, hmore⟩ := h
    intro rest stack
    have htext : (Tree.items before v after more).text ++ ']' :: rest =
        before ++ (v.text ++ (after ++ ',' :: (more.text ++ ']' :: rest))) := by
      rw [Tree.text]
      simp only [List.append_assoc, List.cons_append]
    rw [htext]
    refine .before (reaches_spaces hbefore _ _) ?_
    have hvalue := ihv hv (after ++ ',' :: (more.text ++ ']' :: rest)) (.array :: stack)
      (noKey_array stack)
    have hlater := (hvalue.thenReaches (reaches_spaces hafter _ _)).thenReaches
      (.single (steps_comma _ _))
    exact (hlater.andThen (ihmore hmore rest stack)).congr
      (Tree.repeatsKey_items before v after more)
  | member key v after ih =>
    obtain ⟨hkey, hv, hafter⟩ := h
    intro seen rest stack hseen
    rw [Tree.text, List.append_assoc, List.append_assoc]
    have hvalue := ih hv (after ++ '}' :: rest) (.object (decode key.pieces :: seen) false :: stack)
      (noKey_value _ stack)
    have hlater := hvalue.thenReaches ((reaches_spaces hafter _ _).trans
      (.single (steps_close (.inl rfl) rest _ stack)))
    exact ((leads_key hkey seen _ stack).andThen hlater).congr
      (Tree.found_member hseen key v after)
  | members key v after more ihv ihmore =>
    obtain ⟨hkey, hv, hafter, hmore⟩ := h
    intro seen rest stack hseen
    have hfound := @Tree.found_members seen key v after more
    have htext : (Tree.members key v after more).text ++ '}' :: rest =
        key.text ++ (v.text ++ (after ++ ',' :: (more.text ++ '}' :: rest))) := by
      rw [Tree.text]
      simp only [List.append_assoc, List.cons_append]
    rw [htext]
    have hfirst := leads_key hkey seen (v.text ++ (after ++ ',' :: (more.text ++ '}' :: rest))) stack
    by_cases hmem : decode key.pieces ∈ seen
    · refine ⟨fun _ => hfirst.1 hmem, fun hnot => absurd (hfound.2 (.inl hmem)) hnot⟩
    · have hvalue := ihv hv (after ++ ',' :: (more.text ++ '}' :: rest))
        (.object (decode key.pieces :: seen) false :: stack) (noKey_value _ stack)
      have hlater := (hvalue.thenReaches (reaches_spaces hafter _ _)).thenReaches
        (.single (steps_comma _ _))
      have hrest := ihmore hmore (decode key.pieces :: seen) rest stack
        (List.nodup_cons.2 ⟨hmem, hseen⟩)
      exact (Leads.before (hfirst.2 hmem) (hlater.andThen hrest)).congr
        (hfound.trans (or_iff_right hmem))

/-- **The scan of a valid text finds its repeated keys**, and always has an answer. -/
theorem scan_document {d : Document} (h : d.WellFormed) {fuel : Nat} (hfuel : d.text.length < fuel) :
    scan fuel d.text = some (some (decide d.value.RepeatsKey)) := by
  obtain ⟨hbefore, hvalue, hafter⟩ := h
  have hleads : Leads ⟨d.text, []⟩ d.value.RepeatsKey ⟨[], []⟩ := by
    have hscan := scans_tree hvalue d.after [] noKey_nil
    have hspaces := reaches_spaces hafter [] []
    rw [List.append_nil] at hspaces
    unfold Document.text
    rw [List.append_assoc]
    exact .before (reaches_spaces hbefore _ _) (hscan.thenReaches hspaces)
  unfold scan
  by_cases hrepeats : d.value.RepeatsKey
  · obtain ⟨u, hu, hturn⟩ := hleads.1 hrepeats
    rw [loop_of_reaches hu hturn hfuel, decide_eq_true hrepeats]
  · have hend : Scan.turn ⟨[], []⟩ = .answer (some false) := rfl
    rw [loop_of_reaches (hleads.2 hrepeats) hend hfuel, decide_eq_false hrepeats]

/-- **Repeated keys.**  On every valid text the scan answers, with the keys that the text
repeats after its escapes; the strict reader rejects a text for a repeated key only where
it has one, and where the text is within the reader's own limits whenever it has one. -/
theorem jsonDuplicateKeys_document (inRange : Text → Bool) (depthLimit : Nat) (d : Document)
    (h : d.WellFormed) :
    (∀ fuel, d.text.length < fuel → scan fuel d.text = some (jsonDuplicateKeys d.text)) ∧
      jsonDuplicateKeys d.text = some (decide d.value.RepeatsKey) ∧
      (rejectRepeatedKeys inRange depthLimit d = .error .repeatedKey →
        jsonDuplicateKeys d.text = some true) ∧
      (d.value.depth < depthLimit → (∀ raw ∈ d.value.scalars, inRange raw = true) →
        (rejectRepeatedKeys inRange depthLimit d = .error .repeatedKey ↔
          jsonDuplicateKeys d.text = some true) ∧
        (rejectRepeatedKeys inRange depthLimit d = .ok () ↔
          jsonDuplicateKeys d.text = some false)) := by
  have hanswer : jsonDuplicateKeys d.text = some (decide d.value.RepeatsKey) := by
    unfold jsonDuplicateKeys
    rw [scan_document h (Nat.lt_succ_self _)]
    rfl
  obtain ⟨hrejected, hwithin⟩ := rejectRepeatedKeys_spec inRange depthLimit d
  rw [hanswer]
  simp only [Option.some.injEq, decide_eq_true_eq, decide_eq_false_iff_not, true_and]
  exact ⟨fun fuel hfuel => scan_document h hfuel, hrejected, hwithin⟩

/-- The key `a`, spelled once as it is and once as an escape. -/
def twice : Document :=
  { before := []
    value := .object (.members ⟨[], [.char 'a'], [], []⟩ (.scalar ['1']) []
      (.member ⟨[' '], [.code ['0', '0', '6', '1']], [], []⟩ (.scalar ['2']) []))
    after := [] }

theorem twice_wellFormed : twice.WellFormed := by
  have hnumber (c : Char) (hc : c.isDigit) (hzero : c ≠ '0') : IsScalar [c] := by
    refine .inr (.inr (.inr ⟨[], [c], [], [], rfl, .inl rfl, .inr ⟨⟨List.cons_ne_nil _ _, ?_⟩, ?_⟩,
      .inl rfl, .inl rfl⟩))
    · intro x hx
      rwa [List.mem_singleton.1 hx]
    · exact fun h => hzero (Option.some.inj h)
  have hspace : IsSpace [] := fun c hc => absurd hc List.not_mem_nil
  refine ⟨hspace, ⟨⟨hspace, ?_, hspace, hspace⟩, hnumber _ (by decide) (by decide), hspace,
    ⟨?_, ?_, hspace, hspace⟩, hnumber _ (by decide) (by decide), hspace⟩, hspace⟩
  · intro p hp
    rw [List.mem_singleton.1 hp]
    exact ⟨by decide, by decide, by decide⟩
  · intro c hc
    rw [List.mem_singleton.1 hc]
    rfl
  · intro p hp
    rw [List.mem_singleton.1 hp]
    exact ⟨0x61, ⟨rfl, by decide⟩, .inl (by decide)⟩

theorem twice_document :
    twice.text = "\x7b\"a\":1, \"\\u0061\":2\x7d".toList ∧ jsonDuplicateKeys twice.text = some true ∧
      rejectRepeatedKeys (fun _ => true) 128 twice = .error .repeatedKey := by
  obtain ⟨-, hanswer, -, hwithin⟩ :=
    jsonDuplicateKeys_document (fun _ => true) 128 twice twice_wellFormed
  have hrepeats : twice.value.RepeatsKey := by
    refine ⟨[['a'], ['a']], List.mem_singleton.2 (by decide +kernel), ?_⟩
    exact fun hnodup => (List.nodup_cons.1 hnodup).1 (List.mem_singleton_self _)
  rw [decide_eq_true hrepeats] at hanswer
  exact ⟨by decide +kernel, hanswer,
    ((hwithin (by decide +kernel) fun _ _ => rfl).1).2 hanswer⟩

/-- Arrays in arrays. -/
def nested : Nat → Tree .value
  | 0 => .emptyArray []
  | n + 1 => .array (.item [] (nested n) [])

/-- A text that is deeper than 128 values, and repeats its key after that. -/
def deep : Document :=
  { before := []
    value := .object (.members ⟨[], [.char 'a'], [], []⟩ (nested 128) []
      (.member ⟨[], [.char 'a'], [], []⟩ (.scalar "null".toList) []))
    after := [] }

theorem nested_wellFormed (n : Nat) : (nested n).WellFormed := by
  have hspace : IsSpace [] := fun c hc => absurd hc List.not_mem_nil
  induction n with
  | zero => exact hspace
  | succ n ih => exact ⟨hspace, ih, hspace⟩

/-- The strict reader stops at its own limit, before the repeated key. -/
theorem deep_document :
    deep.WellFormed ∧ jsonDuplicateKeys deep.text = some true ∧
      rejectRepeatedKeys (fun _ => true) 128 deep ≠ .error .repeatedKey := by
  have hspace : IsSpace [] := fun c hc => absurd hc List.not_mem_nil
  have hpiece : ∀ p ∈ [Piece.char 'a'], p.WellFormed := by
    intro p hp
    rw [List.mem_singleton.1 hp]
    exact ⟨by decide, by decide, by decide⟩
  refine ⟨⟨hspace, ⟨⟨hspace, hpiece, hspace, hspace⟩, nested_wellFormed _, hspace,
    ⟨hspace, hpiece, hspace, hspace⟩, .inl rfl, hspace⟩, hspace⟩, ?_, ?_⟩
  · decide +kernel
  · decide +kernel

end Plenora.Postgres.JsonKeys
