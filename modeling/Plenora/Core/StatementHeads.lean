import Plenora.Core.NativeQueryPolicy
import Plenora.Lib.Utf8

/-!
# The heads of the statements of a text

`enforcePolicy` reads a text under several lexer modes and asks of each reading which keyword
its statements begin with.  The scanner works on the bytes of the text and slices it as text;
a slice inside a character would panic.

    step sql mode s = .next s' → s.position < s'.position ≤ sql.length       (step_advances)
    statementHeads (utf8 text) mode ≠ .panics                                (statementHeads_total)
    enforcePolicy policy sql = enforceAll policy sql                         (enforcePolicy_eq)
-/

namespace Plenora.Core.StatementHeads

open Plenora.Lib Plenora.Lib.Utf8
open NativeQueryPolicy (lexicalError)

abbrev Bytes := List UInt8

/-- The letters of a head, in upper case. -/
def upper (bytes : Bytes) : String :=
  String.ofList (bytes.map fun b => (Char.ofNat b.toNat).toUpper)

/-! ## Modes and outcomes -/

structure Mode where
  backslash : Bool
  nestedComments : Bool
  mysqlComments : Bool
  deriving DecidableEq, Repr

def modeOf (mode : Nat) : Mode where
  backslash := mode &&& 1 ≠ 0
  nestedComments := mode &&& 2 ≠ 0
  mysqlComments := mode &&& 4 ≠ 0

/-- How a part of the scanner ends. -/
inductive Turn (α : Type) where
  | next (a : α)
  /-- A delimiter without its end, or an executable comment. -/
  | refused
  /-- A slice that begins or ends inside a character. -/
  | panics
  deriving DecidableEq, Repr

def Turn.bind {α β : Type} : Turn α → (α → Turn β) → Turn β
  | .next a, f => f a
  | .refused, _ => .refused
  | .panics, _ => .panics

/-- The result of a search that must find. -/
def found : Option Nat → Turn Nat
  | some n => .next n
  | none => .refused

/-- A slice of the text. -/
def sliced : Option Bytes → Turn Bytes
  | some bytes => .next bytes
  | none => .panics

/-! ## Ends of tokens

Each gives how many bytes it goes over. -/

/-- `comment_end`, with the comments open around the position. -/
def commentEnd (nestedComments : Bool) : Nat → Bytes → Option Nat
  | _, [] => none
  | _, [_] => none
  | depth, b :: c :: rest =>
    if nestedComments && b = ascii '/' && c = ascii '*' then
      (commentEnd nestedComments (depth + 1) rest).map (· + 2)
    else if b = ascii '*' && c = ascii '/' then
      if depth = 1 then some 2 else (commentEnd nestedComments (depth - 1) rest).map (· + 2)
    else (commentEnd nestedComments depth (c :: rest)).map (· + 1)

/-- `quoted_end`, after the opening quote. -/
def quotedEnd (close : UInt8) (backslash : Bool) : Bytes → Option Nat
  | [] => none
  | [b] => if backslash && b = ascii '\\' then none else if b = close then some 1 else none
  | b :: c :: rest =>
    if backslash && b = ascii '\\' then (quotedEnd close backslash rest).map (· + 2)
    else if b = close then
      if c = close then (quotedEnd close backslash rest).map (· + 2) else some 1
    else (quotedEnd close backslash (c :: rest)).map (· + 1)

/-- `str::find` of a text. -/
def findText (needle : Bytes) : Bytes → Option Nat
  | [] => if needle = [] then some 0 else none
  | b :: rest => if needle <+: b :: rest then some 0 else (findText needle rest).map (· + 1)

/-- The first place of `close` before a quote. -/
def findClose (close : UInt8) : Bytes → Option Nat
  | b :: c :: rest =>
    if b = close ∧ c = ascii '\'' then some 0 else (findClose close (c :: rest)).map (· + 1)
  | _ => none

def closing (b : UInt8) : UInt8 :=
  if b = ascii '[' then ascii ']'
  else if b = ascii '(' then ascii ')'
  else if b = ascii '{' then ascii '}'
  else if b = ascii '<' then ascii '>'
  else b

def isTagByte (b : UInt8) : Bool := Utf8.isAsciiAlphanumeric b || b = ascii '_'

/-- Is there no name before the position that a `$` would continue. -/
def mayOpenTag (sql : Bytes) (position : Nat) : Bool :=
  position = 0 ||
    (sql[position - 1]?).all fun b => !(isTagByte b || b = ascii '$')

/-- The token at a `$`. -/
def dollarEnd (sql : Bytes) (position : Nat) : Turn Nat :=
  let rest := sql.drop position
  let length := ((rest.drop 1).takeWhile isTagByte).length + 1
  if rest[length]? = some (ascii '$') ∧ (length = 1 ∨ (rest[1]?).all (! isAsciiDigit ·)) ∧
      mayOpenTag sql position then
    (sliced (slice sql position (position + length + 1))).bind fun delimiter =>
      let start := position + length + 1
      (sliced (slice sql start sql.length)).bind fun after =>
        (found (findText delimiter after)).bind fun offset =>
          .next (start + offset + delimiter.length)
  else .next (position + 1)

/-- `token_end`. -/
def tokenEnd (sql : Bytes) (position : Nat) (backslash : Bool) : Turn Nat :=
  match sql.drop position with
  | [] => .next position
  | b :: rest =>
    if b = ascii '\'' ∨ b = ascii '"' ∨ b = ascii '\x60' ∨ b = ascii '[' then
      let close := if b = ascii '[' then ascii ']' else b
      (found (quotedEnd close (backslash && b ≠ ascii '[') rest)).bind fun n =>
        .next (position + 1 + n)
    else if b = ascii '$' then dollarEnd sql position
    else if (b = ascii 'q' ∨ b = ascii 'Q') ∧ rest.head? = some (ascii '\'') ∧
        4 ≤ rest.length + 1 then
      (found (findClose (closing (rest.getD 1 0)) (rest.drop 2))).bind fun offset =>
        .next (position + offset + 5)
    else .next (position + 1)

/-! ## The scanner -/

structure Scan where
  position : Nat
  head : Option String
  heads : List String
  deriving DecidableEq, Repr

/-- Does a `--` open a comment before this byte. -/
def endsDashes (next : Option UInt8) : Bool :=
  next.all fun b => isAsciiWhitespace b || isAsciiControl b

def opensLineComment (mode : Mode) (rest : Bytes) : Bool :=
  (mode.mysqlComments && rest.head? = some (ascii '#')) ||
    (decide (asciiText "--" <+: rest) && (!mode.mysqlComments || endsDashes rest[2]?))

def isLineEnd (b : UInt8) : Bool := b = 10 || b = 13

/-- The head of the statement, read at its first token. -/
def headAt (sql : Bytes) (s : Scan) : Turn (Option String) :=
  match s.head with
  | some head => .next (some head)
  | none =>
    let length := ((sql.drop s.position).takeWhile isAsciiAlphabetic).length
    (sliced (slice sql s.position (s.position + length))).bind fun letters =>
      .next (some (upper letters))

/-- One turn of the loop of `statement_heads`, before the end of the text. -/
def step (sql : Bytes) (mode : Mode) (s : Scan) : Turn Scan :=
  let rest := sql.drop s.position
  if (rest.head?).any isAsciiWhitespace then .next { s with position := s.position + 1 }
  else if opensLineComment mode rest then
    .next { s with position := s.position + (rest.takeWhile (! isLineEnd ·)).length }
  else if asciiText "/*" <+: rest then
    if asciiText "/*!" <+: rest ∨ asciiText "/*M!" <+: rest then .refused
    else
      (found (commentEnd mode.nestedComments 1 (rest.drop 2))).bind fun n =>
        .next { s with position := s.position + 2 + n }
  else if rest.head? = some (ascii ';') then
    .next { position := s.position + 1, head := none, heads := s.heads ++ s.head.toList }
  else
    (headAt sql s).bind fun head =>
      (tokenEnd sql s.position mode.backslash).bind fun position =>
        .next { s with position, head }

/-! ## Every turn advances -/

theorem commentEnd_le {nested : Bool} {depth n : Nat} {bytes : Bytes}
    (h : commentEnd nested depth bytes = some n) : n ≤ bytes.length := by
  fun_induction commentEnd nested depth bytes generalizing n with
  | case1 => cases h
  | case2 => cases h
  | case3 depth b c rest _ ih =>
    obtain ⟨m, hm, rfl⟩ := Option.map_eq_some_iff.1 h
    have := ih hm
    simp only [List.length_cons]
    omega
  | case4 b c rest =>
    cases h
    simp only [List.length_cons]
    omega
  | case5 depth b c rest _ _ _ ih =>
    obtain ⟨m, hm, rfl⟩ := Option.map_eq_some_iff.1 h
    have := ih hm
    simp only [List.length_cons]
    omega
  | case6 depth b c rest _ _ ih =>
    obtain ⟨m, hm, rfl⟩ := Option.map_eq_some_iff.1 h
    have := ih hm
    simp only [List.length_cons] at this ⊢
    omega

theorem quotedEnd_le {close : UInt8} {backslash : Bool} {n : Nat} {bytes : Bytes}
    (h : quotedEnd close backslash bytes = some n) : 0 < n ∧ n ≤ bytes.length := by
  fun_induction quotedEnd close backslash bytes generalizing n with
  | case1 => cases h
  | case2 => cases h
  | case3 =>
    cases h
    exact ⟨by omega, Nat.le_refl _⟩
  | case4 => cases h
  | case5 b c rest _ ih =>
    obtain ⟨m, hm, rfl⟩ := Option.map_eq_some_iff.1 h
    have := ih hm
    simp only [List.length_cons]
    omega
  | case6 rest _ ih =>
    obtain ⟨m, hm, rfl⟩ := Option.map_eq_some_iff.1 h
    have := ih hm
    simp only [List.length_cons]
    omega
  | case7 =>
    cases h
    simp only [List.length_cons]
    omega
  | case8 b c rest _ _ ih =>
    obtain ⟨m, hm, rfl⟩ := Option.map_eq_some_iff.1 h
    have := ih hm
    simp only [List.length_cons] at this ⊢
    omega

theorem findText_le {needle bytes : Bytes} {n : Nat} (h : findText needle bytes = some n) :
    n + needle.length ≤ bytes.length := by
  induction bytes generalizing n with
  | nil =>
    rw [findText] at h
    split at h
    next hneedle =>
      cases h
      rw [hneedle]
      exact Nat.le_refl _
    next => cases h
  | cons b rest ih =>
    rw [findText] at h
    split at h
    next hprefix =>
      cases h
      rw [Nat.zero_add]
      exact hprefix.length_le
    next =>
      obtain ⟨m, hm, rfl⟩ := Option.map_eq_some_iff.1 h
      have := ih hm
      rw [List.length_cons]
      omega

theorem findClose_le {close : UInt8} {bytes : Bytes} {n : Nat}
    (h : findClose close bytes = some n) : n + 2 ≤ bytes.length := by
  fun_induction findClose close bytes generalizing n with
  | case1 =>
    cases h
    simp only [List.length_cons]
    omega
  | case2 b c rest _ ih =>
    obtain ⟨m, hm, rfl⟩ := Option.map_eq_some_iff.1 h
    have := ih hm
    simp only [List.length_cons] at this ⊢
    omega
  | case3 => cases h

theorem Turn.bind_eq_next {α β : Type} {x : Turn α} {f : α → Turn β} {b : β} :
    x.bind f = .next b ↔ ∃ a, x = .next a ∧ f a = .next b := by
  cases x with
  | next a =>
    constructor
    · exact fun h => ⟨a, rfl, h⟩
    · rintro ⟨_, ⟨⟩, h⟩
      exact h
  | refused =>
    constructor
    · rintro ⟨⟩
    · rintro ⟨_, ⟨⟩, _⟩
  | panics =>
    constructor
    · rintro ⟨⟩
    · rintro ⟨_, ⟨⟩, _⟩

theorem found_eq_next {o : Option Nat} {n : Nat} : found o = .next n ↔ o = some n := by
  cases o with
  | none =>
    constructor
    · rintro ⟨⟩
    · rintro ⟨⟩
  | some m =>
    rw [found, Turn.next.injEq, Option.some.injEq]

theorem sliced_eq_next {o : Option Bytes} {bytes : Bytes} :
    sliced o = .next bytes ↔ o = some bytes := by
  cases o with
  | none =>
    constructor
    · rintro ⟨⟩
    · rintro ⟨⟩
  | some m => rw [sliced, Turn.next.injEq, Option.some.injEq]

theorem slice_spec {sql bytes : Bytes} {start stop : Nat} (h : slice sql start stop = some bytes) :
    start ≤ stop ∧ bytes = (sql.drop start).take (stop - start) := by
  unfold slice at h
  split at h
  next hle => exact ⟨hle.1, (Option.some.inj h).symm⟩
  next => cases h

theorem dollarEnd_advances {sql : Bytes} {position n : Nat} (hin : position < sql.length)
    (h : dollarEnd sql position = .next n) : position < n ∧ n ≤ sql.length := by
  unfold dollarEnd at h
  dsimp only at h
  split at h
  · simp only [Turn.bind_eq_next, sliced_eq_next, found_eq_next, Turn.next.injEq] at h
    obtain ⟨delimiter, -, after, hafter, offset, hoffset, rfl⟩ := h
    have hfind := findText_le hoffset
    obtain ⟨hstart, rfl⟩ := slice_spec hafter
    rw [List.length_take, List.length_drop] at hfind
    omega
  · cases h
    omega

theorem tokenEnd_advances {sql : Bytes} {position n : Nat} {backslash : Bool}
    (hin : position < sql.length) (h : tokenEnd sql position backslash = .next n) :
    position < n ∧ n ≤ sql.length := by
  unfold tokenEnd at h
  have hlength : (sql.drop position).length = sql.length - position := List.length_drop
  split at h
  next hdrop =>
    rw [hdrop, List.length_nil] at hlength
    omega
  next b rest hdrop =>
    rw [hdrop, List.length_cons] at hlength
    split at h
    next =>
      simp only [Turn.bind_eq_next, found_eq_next, Turn.next.injEq] at h
      obtain ⟨m, hm, rfl⟩ := h
      have := quotedEnd_le hm
      omega
    next =>
    split at h
    next => exact dollarEnd_advances hin h
    next =>
    split at h
    next =>
      simp only [Turn.bind_eq_next, found_eq_next, Turn.next.injEq] at h
      obtain ⟨m, hm, rfl⟩ := h
      have := findClose_le hm
      rw [List.length_drop] at this
      omega
    next =>
      cases h
      omega

theorem takeWhile_pos {p : UInt8 → Bool} {bytes : Bytes} (h : bytes.head?.any p) :
    0 < (bytes.takeWhile p).length ∧ (bytes.takeWhile p).length ≤ bytes.length := by
  cases bytes with
  | nil => cases h
  | cons b rest =>
    have hp : p b = true := h
    refine ⟨?_, (List.takeWhile_prefix _).length_le⟩
    rw [List.takeWhile_cons_of_pos hp]
    exact Nat.succ_pos _

theorem asciiText_dashes : asciiText "--" = [45, 45] := by decide

theorem opensLineComment_head {mode : Mode} {rest : Bytes} (h : opensLineComment mode rest = true) :
    rest.head?.any (! isLineEnd ·) := by
  unfold opensLineComment at h
  rw [Bool.or_eq_true] at h
  rcases h with h | h
  · rw [Bool.and_eq_true, decide_eq_true_eq] at h
    rw [h.2]
    decide
  · rw [Bool.and_eq_true, decide_eq_true_eq, asciiText_dashes] at h
    obtain ⟨tail, rfl⟩ := h.1
    rfl

/-- **Every turn goes forward and stays inside the text.** -/
theorem step_advances {sql : Bytes} {mode : Mode} {s s' : Scan} (hin : s.position < sql.length)
    (h : step sql mode s = .next s') : s.position < s'.position ∧ s'.position ≤ sql.length := by
  unfold step at h
  dsimp only at h
  have hlength : (sql.drop s.position).length = sql.length - s.position := List.length_drop
  split at h
  next =>
    cases h
    exact ⟨Nat.lt_succ_self _, hin⟩
  next =>
  split at h
  next hline =>
    cases h
    have := takeWhile_pos (opensLineComment_head hline)
    dsimp only
    omega
  next =>
  split at h
  next =>
    split at h
    next => cases h
    next =>
      simp only [Turn.bind_eq_next, found_eq_next, Turn.next.injEq] at h
      obtain ⟨n, hn, rfl⟩ := h
      have hle := commentEnd_le hn
      have hopen : (asciiText "/*").length ≤ (sql.drop s.position).length := by
        apply List.IsPrefix.length_le
        assumption
      have htwo : (asciiText "/*").length = 2 := by decide
      rw [List.length_drop] at hle
      dsimp only
      omega
  next =>
  split at h
  next =>
    cases h
    exact ⟨Nat.lt_succ_self _, hin⟩
  next =>
    simp only [Turn.bind_eq_next, Turn.next.injEq] at h
    obtain ⟨head, -, position, hposition, rfl⟩ := h
    exact tokenEnd_advances hin hposition

/-! ## Runs -/

/-- The loop of `statement_heads`. -/
def run (sql : Bytes) (mode : Mode) (s : Scan) : Turn (List String) :=
  if _hin : s.position < sql.length then
    match _hstep : step sql mode s with
    | .next s' => run sql mode s'
    | .refused => .refused
    | .panics => .panics
  else .next (s.heads ++ s.head.toList)
termination_by sql.length - s.position
decreasing_by
  have := step_advances _hin _hstep
  omega

def statementHeads (sql : Bytes) (mode : Mode) : Turn (List String) :=
  run sql mode { position := 0, head := none, heads := [] }

/-- One turn of the loop. -/
theorem run_eq (sql : Bytes) (mode : Mode) (s : Scan) :
    run sql mode s =
      if s.position < sql.length then (step sql mode s).bind (run sql mode)
      else .next (s.heads ++ s.head.toList) := by
  rw [run.eq_def]
  split
  next =>
    split
    next s' hstep =>
      rw [hstep]
      rfl
    next hstep =>
      rw [hstep]
      rfl
    next hstep =>
      rw [hstep]
      rfl
  next => rfl

/-! ## The policy -/

inductive NativeQueryPolicy where
  | allow | deny
  deriving DecidableEq, Repr

def isOltpAllowedKeyword (head : String) : Bool :=
  head ∈ ["SELECT", "WITH", "INSERT", "UPDATE", "DELETE", "VALUES", "TABLE", "MERGE"]

def isTransactionControl (head : String) : Bool :=
  head ∈ ["BEGIN", "START", "COMMIT", "END", "ABORT", "ROLLBACK", "SAVEPOINT", "RELEASE",
    "DECLARE", "FETCH", "CLOSE"]

/-- What the policy has against the heads of one reading. -/
def objection (policy : NativeQueryPolicy) (heads : List String) : Option DatabaseError :=
  if heads.any isTransactionControl then
    some (.invalidPlan ("il transaction scope gestisce BEGIN/COMMIT/ROLLBACK/SAVEPOINT: " ++
      "non passarli come statement"))
  else if policy = .deny ∧ (heads.length ≠ 1 ∨ (heads.head?.all (! isOltpAllowedKeyword ·))) then
    some (.invalidPlan "profilo native_query=Deny: richiesto un singolo statement CRUD")
  else none

/-- The loop over the modes; `none` is a panic. -/
def enforceModes (policy : NativeQueryPolicy) (sql : Bytes) (skips : Mode → Bool) :
    List Mode → Bool → Option (Result Unit)
  | [], valid => some (if valid then .ok () else .error lexicalError)
  | mode :: modes, valid =>
    if skips mode then enforceModes policy sql skips modes valid
    else
      match statementHeads sql mode with
      | .panics => none
      | .refused => enforceModes policy sql skips modes valid
      | .next heads =>
        match objection policy heads with
        | some e => some (.error e)
        | none => enforceModes policy sql skips modes true

/-- The modes that the text cannot tell from one with fewer flags. -/
def skips (sql : Bytes) (mode : Mode) : Bool :=
  (mode.backslash && ascii '\\' ∉ sql) ||
    (mode.nestedComments && !decide (asciiText "/*" <:+: sql)) ||
    (mode.mysqlComments && ascii '#' ∉ sql && !decide (asciiText "--" <:+: sql))

def modes : List Mode := (List.range 8).map modeOf

def enforcePolicy (policy : NativeQueryPolicy) (sql : Bytes) : Option (Result Unit) :=
  enforceModes policy sql (skips sql) modes false

/-- The scanner run under every mode. -/
def enforceAll (policy : NativeQueryPolicy) (sql : Bytes) : Option (Result Unit) :=
  enforceModes policy sql (fun _ => false) modes false

/-! ## Slices -/

theorem head_drop {sql : Bytes} {i : Nat} : (sql.drop i).head? = sql[i]? := List.head?_drop

/-- Where a run of bytes ends: at the end of the text or at a byte outside it. -/
theorem takeWhile_next (p : UInt8 → Bool) (sql : Bytes) (i : Nat) :
    sql.length ≤ i + ((sql.drop i).takeWhile p).length ∨
      ∃ b, sql[i + ((sql.drop i).takeWhile p).length]? = some b ∧ p b = false := by
  have hsplit : (sql.drop i).takeWhile p ++ (sql.drop i).dropWhile p = sql.drop i :=
    List.takeWhile_append_dropWhile
  cases hrest : (sql.drop i).dropWhile p with
  | nil =>
    left
    have := congrArg List.length hsplit
    rw [hrest, List.append_nil, List.length_drop] at this
    omega
  | cons b rest =>
    right
    refine ⟨b, ?_, ?_⟩
    · have hget : ((sql.drop i).takeWhile p ++ (sql.drop i).dropWhile p)[
          ((sql.drop i).takeWhile p).length]? = some b := by
        rw [hrest, List.getElem?_append_right (Nat.le_refl _), Nat.sub_self]
        rfl
      rwa [hsplit, List.getElem?_drop] at hget
    · have := List.head?_dropWhile_not p (sql.drop i)
      rw [hrest] at this
      simpa using this

/-- The last byte of a run of bytes. -/
theorem takeWhile_last {p : UInt8 → Bool} {bytes : Bytes} {n : Nat}
    (h : (bytes.takeWhile p).length = n + 1) : ∃ b, bytes[n]? = some b ∧ p b = true := by
  have hn : n < (bytes.takeWhile p).length := by omega
  refine ⟨(bytes.takeWhile p)[n], ?_, List.mem_takeWhile_imp (List.getElem_mem hn)⟩
  have hget : (bytes.takeWhile p ++ bytes.dropWhile p)[n]? = some (bytes.takeWhile p)[n] := by
    rw [List.getElem?_append_left hn, List.getElem?_eq_getElem hn]
  rwa [List.takeWhile_append_dropWhile] at hget

theorem commentEnd_last {nested : Bool} {depth n : Nat} {bytes : Bytes}
    (h : commentEnd nested depth bytes = some n) : ∃ m, n = m + 1 ∧ bytes[m]? = some (ascii '/') := by
  fun_induction commentEnd nested depth bytes generalizing n with
  | case1 => cases h
  | case2 => cases h
  | case3 depth b c rest _ ih =>
    obtain ⟨k, hk, rfl⟩ := Option.map_eq_some_iff.1 h
    obtain ⟨m, rfl, hm⟩ := ih hk
    exact ⟨m + 2, rfl, hm⟩
  | case4 b c rest _ hclose =>
    cases h
    rw [Bool.and_eq_true, decide_eq_true_eq, decide_eq_true_eq] at hclose
    exact ⟨1, rfl, by rw [← hclose.2]; rfl⟩
  | case5 depth b c rest _ _ _ ih =>
    obtain ⟨k, hk, rfl⟩ := Option.map_eq_some_iff.1 h
    obtain ⟨m, rfl, hm⟩ := ih hk
    exact ⟨m + 2, rfl, hm⟩
  | case6 depth b c rest _ _ ih =>
    obtain ⟨k, hk, rfl⟩ := Option.map_eq_some_iff.1 h
    obtain ⟨m, rfl, hm⟩ := ih hk
    exact ⟨m + 1, rfl, hm⟩

theorem ascii_of_whitespace {b : UInt8} (h : isAsciiWhitespace b = true) : b < 0x80 := by
  simp only [isAsciiWhitespace, Bool.or_eq_true, decide_eq_true_eq] at h
  rcases h with (((rfl | rfl) | rfl) | rfl) | rfl <;> decide

theorem ascii_of_lineEnd {b : UInt8} (h : isLineEnd b = true) : b < 0x80 := by
  simp only [isLineEnd, Bool.or_eq_true, decide_eq_true_eq] at h
  rcases h with rfl | rfl <;> decide

theorem ascii_of_alphabetic {b : UInt8} (h : isAsciiAlphabetic b = true) : b < 0x80 := by
  simp only [isAsciiAlphabetic, Bool.or_eq_true, Bool.and_eq_true, decide_eq_true_eq] at h
  rcases h with ⟨-, h⟩ | ⟨-, h⟩
  · exact UInt8.lt_of_le_of_lt h (by decide)
  · exact UInt8.lt_of_le_of_lt h (by decide)

theorem slice_isSome {sql : Bytes} {start stop : Nat} (hle : start ≤ stop)
    (hstart : IsBoundary sql start) (hstop : IsBoundary sql stop) :
    ∃ bytes, slice sql start stop = some bytes := by
  unfold slice
  rw [if_pos ⟨hle, hstart, hstop⟩]
  exact ⟨_, rfl⟩

theorem found_ne_panics (o : Option Nat) : found o ≠ .panics := by
  cases o with
  | none => rintro ⟨⟩
  | some n => rintro ⟨⟩

/-- A part that does not panic, followed by parts that do not. -/
theorem Turn.bind_ne_panics {α β : Type} {x : Turn α} {f : α → Turn β} (hx : x ≠ .panics)
    (hf : ∀ a, x = .next a → f a ≠ .panics) : x.bind f ≠ .panics := by
  cases x with
  | next a => exact hf a rfl
  | refused => rintro ⟨⟩
  | panics => exact absurd rfl hx

section Text

variable (text : List Char)

theorem headAt_ne_panics {s : Scan} (hhead : s.head = none → IsBoundary (utf8 text) s.position) :
    headAt (utf8 text) s ≠ .panics := by
  unfold headAt
  split
  next => rintro ⟨⟩
  next hnone =>
    have hstart := hhead hnone
    have hstop : IsBoundary (utf8 text) (s.position +
        (((utf8 text).drop s.position).takeWhile isAsciiAlphabetic).length) := by
      cases hn : (((utf8 text).drop s.position).takeWhile isAsciiAlphabetic).length with
      | zero => exact hstart
      | succ n =>
        obtain ⟨b, hget, hb⟩ := takeWhile_last hn
        rw [List.getElem?_drop] at hget
        exact isBoundary_succ hget (ascii_of_alphabetic hb)
    obtain ⟨bytes, hslice⟩ := slice_isSome (Nat.le_add_right _ _) hstart hstop
    dsimp only
    rw [hslice]
    rintro ⟨⟩

theorem dollarEnd_ne_panics {position : Nat} (hdollar : (utf8 text)[position]? = some (ascii '$')) :
    dollarEnd (utf8 text) position ≠ .panics := by
  unfold dollarEnd
  dsimp only
  split
  next hopen =>
    have hstop := hopen.1
    rw [List.getElem?_drop, ← Nat.add_assoc] at hstop
    have hafter := isBoundary_succ hstop (by decide)
    obtain ⟨delimiter, hdelimiter⟩ := slice_isSome (by omega)
      (isBoundary_of_ascii hdollar (by decide)) hafter
    have hle : position + ((((utf8 text).drop position).drop 1).takeWhile isTagByte).length + 1 + 1 ≤
        (utf8 text).length := (List.getElem?_eq_some_iff.1 hstop).1
    obtain ⟨rest, hrest⟩ := slice_isSome hle hafter (.inl rfl)
    rw [← Nat.add_assoc, hdelimiter, hrest]
    show (found _).bind _ ≠ Turn.panics
    refine Turn.bind_ne_panics (found_ne_panics _) fun a _ => ?_
    rintro ⟨⟩
  next => rintro ⟨⟩

theorem tokenEnd_ne_panics {position : Nat} (backslash : Bool) :
    tokenEnd (utf8 text) position backslash ≠ .panics := by
  unfold tokenEnd
  split
  next => rintro ⟨⟩
  next b rest hdrop =>
    split
    next =>
      refine Turn.bind_ne_panics (found_ne_panics _) fun a _ => ?_
      rintro ⟨⟩
    next =>
    split
    next hdollar =>
      refine dollarEnd_ne_panics text ?_
      rw [← head_drop, hdrop, hdollar]
      rfl
    next =>
    split
    next =>
      refine Turn.bind_ne_panics (found_ne_panics _) fun a _ => ?_
      rintro ⟨⟩
    next => rintro ⟨⟩

/-- **A turn slices the text between characters, and the next turn may as well.** -/
theorem step_total {mode : Mode} {s : Scan}
    (hhead : s.head = none → IsBoundary (utf8 text) s.position) :
    step (utf8 text) mode s ≠ .panics ∧ ∀ s', step (utf8 text) mode s = .next s' →
      s'.head = none → IsBoundary (utf8 text) s'.position := by
  have hsucc {b : UInt8} (h : ((utf8 text).drop s.position).head? = some b) (hb : b < 0x80) :
      IsBoundary (utf8 text) (s.position + 1) := by
    rw [head_drop] at h
    exact isBoundary_succ h hb
  unfold step
  dsimp only
  split
  next hspace =>
    refine ⟨by rintro ⟨⟩, ?_⟩
    rintro _ ⟨⟩ -
    obtain ⟨b, hb, hspace⟩ := (Option.any_eq_true _ _).1 hspace
    exact hsucc hb (ascii_of_whitespace hspace)
  next =>
  split
  next hline =>
    refine ⟨by rintro ⟨⟩, ?_⟩
    rintro _ ⟨⟩ -
    rcases takeWhile_next (! isLineEnd ·) (utf8 text) s.position with hend | ⟨b, hget, hb⟩
    · have hfit := takeWhile_pos (opensLineComment_head hline)
      rw [List.length_drop] at hfit
      exact .inl (by dsimp only; omega)
    · exact isBoundary_of_ascii hget (ascii_of_lineEnd (by simpa using hb))
  next =>
  split
  next =>
    split
    next => exact ⟨by rintro ⟨⟩, by rintro _ ⟨⟩⟩
    next =>
      refine ⟨Turn.bind_ne_panics (found_ne_panics _) fun a _ => by rintro ⟨⟩, ?_⟩
      intro s' h _
      simp only [Turn.bind_eq_next, found_eq_next, Turn.next.injEq] at h
      obtain ⟨n, hn, rfl⟩ := h
      obtain ⟨m, rfl, hm⟩ := commentEnd_last hn
      rw [List.drop_drop, List.getElem?_drop] at hm
      exact isBoundary_succ (i := s.position + 2 + m) hm (by decide)
  next =>
  split
  next hsemicolon =>
    refine ⟨by rintro ⟨⟩, ?_⟩
    rintro _ ⟨⟩ -
    exact hsucc hsemicolon (by decide)
  next =>
    constructor
    · refine Turn.bind_ne_panics (headAt_ne_panics text hhead) fun head _ => ?_
      refine Turn.bind_ne_panics (tokenEnd_ne_panics text _) fun position _ => ?_
      rintro ⟨⟩
    · intro s' h hnone
      simp only [Turn.bind_eq_next, Turn.next.injEq] at h
      obtain ⟨head, hsome, position, -, rfl⟩ := h
      dsimp only at hnone
      subst hnone
      unfold headAt at hsome
      split at hsome
      next => cases hsome
      next =>
        obtain ⟨letters, -, hletters⟩ := Turn.bind_eq_next.1 hsome
        cases hletters

theorem run_total (mode : Mode) (s : Scan)
    (hhead : s.head = none → IsBoundary (utf8 text) s.position) :
    run (utf8 text) mode s ≠ .panics := by
  induction hn : (utf8 text).length - s.position using Nat.strong_induction_on generalizing s with
  | h n ih =>
    rw [run_eq]
    split
    next hin =>
      obtain ⟨htotal, hnext⟩ := step_total text hhead
      refine Turn.bind_ne_panics htotal fun s' hstep => ?_
      have := step_advances hin hstep
      exact ih _ (by omega) s' (hnext s' hstep) rfl
    next => rintro ⟨⟩

/-- **The scanner ends on every text without a slice inside a character.** -/
theorem statementHeads_total (mode : Mode) : statementHeads (utf8 text) mode ≠ .panics :=
  run_total text mode _ fun _ => isBoundary_zero text

end Text

/-! ## Modes that a text cannot tell apart -/

/-- The flags of a mode that matter on a text. -/
def reduce (sql : Bytes) (mode : Mode) : Mode where
  backslash := mode.backslash && decide (ascii '\\' ∈ sql)
  nestedComments := mode.nestedComments && decide (asciiText "/*" <:+: sql)
  mysqlComments :=
    mode.mysqlComments && decide (ascii '#' ∈ sql ∨ asciiText "--" <:+: sql)

section Reduce

variable (sql : Bytes)

theorem infix_of_drop {needle : Bytes} {i : Nat} (h : needle <+: sql.drop i) : needle <:+: sql :=
  h.isInfix.trans (List.drop_suffix i sql).isInfix

theorem mem_of_drop {b : UInt8} {i : Nat} (h : (sql.drop i).head? = some b) : b ∈ sql :=
  List.mem_of_mem_drop (List.mem_of_head? h)

theorem quotedEnd_plain (close : UInt8) (backslash : Bool) {bytes : Bytes}
    (h : ascii '\\' ∉ bytes) : quotedEnd close backslash bytes = quotedEnd close false bytes := by
  fun_induction quotedEnd close false bytes with
  | case1 => rfl
  | case2 b hb => cases hb
  | case3 hb =>
    have hne : close ≠ ascii '\\' := fun heq => h (heq ▸ List.mem_singleton_self _)
    simp [quotedEnd, hne]
  | case4 b hb hne =>
    simp [quotedEnd, hne]
  | case5 b c rest hb => cases hb
  | case6 rest hb ih =>
    have hne : close ≠ ascii '\\' := fun heq => h (heq ▸ List.mem_cons_self)
    rw [List.mem_cons, List.mem_cons, not_or, not_or] at h
    simp [quotedEnd, hne, ih h.2.2]
  | case7 c rest hc =>
    have hne : close ≠ ascii '\\' := fun heq => h (heq ▸ List.mem_cons_self)
    simp [quotedEnd, hne, hc]
  | case8 b c rest hb hclose ih =>
    rw [List.mem_cons, not_or] at h
    simp [quotedEnd, Ne.symm h.1, hclose, ih h.2]

theorem tokenEnd_reduce (mode : Mode) (position : Nat) :
    tokenEnd sql position (reduce sql mode).backslash = tokenEnd sql position mode.backslash := by
  by_cases hmem : ascii '\\' ∈ sql
  · have : (reduce sql mode).backslash = mode.backslash := by simp [reduce, hmem]
    rw [this]
  · have : (reduce sql mode).backslash = false := by simp [reduce, hmem]
    rw [this]
    unfold tokenEnd
    cases hdrop : sql.drop position with
    | nil => rfl
    | cons b rest =>
      have hrest : ascii '\\' ∉ rest := by
        intro h
        refine hmem (List.mem_of_mem_drop (i := position) ?_)
        rw [hdrop]
        exact List.mem_cons_of_mem _ h
      dsimp only
      rw [Bool.false_and, ← quotedEnd_plain _ (mode.backslash && _) hrest]

theorem opensLineComment_reduce (mode : Mode) (i : Nat) :
    opensLineComment (reduce sql mode) (sql.drop i) = opensLineComment mode (sql.drop i) := by
  by_cases hmarks : ascii '#' ∈ sql ∨ asciiText "--" <:+: sql
  · have : (reduce sql mode).mysqlComments = mode.mysqlComments := by simp [reduce, hmarks]
    unfold opensLineComment
    rw [this]
  · have hhash : (sql.drop i).head? ≠ some (ascii '#') := fun h => hmarks (.inl (mem_of_drop sql h))
    have hdashes : ¬ asciiText "--" <+: sql.drop i := fun h => hmarks (.inr (infix_of_drop sql h))
    simp only [opensLineComment, hhash, hdashes, decide_false, Bool.and_false, Bool.false_and]

/-- **A turn does not see the flags that do not matter on the text.** -/
theorem step_reduce (mode : Mode) (s : Scan) : step sql (reduce sql mode) s = step sql mode s := by
  unfold step
  dsimp only
  rw [opensLineComment_reduce, tokenEnd_reduce]
  split
  next => rfl
  next =>
  split
  next => rfl
  next =>
  split
  next hopen =>
    have : (reduce sql mode).nestedComments = mode.nestedComments := by
      simp [reduce, infix_of_drop sql hopen]
    rw [this]
  next => rfl

theorem run_reduce (mode : Mode) (s : Scan) : run sql (reduce sql mode) s = run sql mode s := by
  induction hn : sql.length - s.position using Nat.strong_induction_on generalizing s with
  | h n ih =>
    rw [run_eq, run_eq sql mode, step_reduce]
    split
    next hin =>
      cases hstep : step sql mode s with
      | next s' =>
        have := step_advances hin hstep
        exact ih _ (by omega) s' rfl
      | refused => rfl
      | panics => rfl
    next => rfl

theorem statementHeads_reduce (mode : Mode) :
    statementHeads sql (reduce sql mode) = statementHeads sql mode := run_reduce sql mode _

theorem skips_iff (mode : Mode) : skips sql mode = true ↔ reduce sql mode ≠ mode := by
  obtain ⟨backslash, nestedComments, mysqlComments⟩ := mode
  simp only [skips, reduce, ne_eq, Mode.mk.injEq]
  by_cases h1 : ascii '\\' ∈ sql <;> by_cases h2 : asciiText "/*" <:+: sql <;>
    by_cases h3 : ascii '#' ∈ sql <;> by_cases h4 : asciiText "--" <:+: sql <;>
    cases backslash <;> cases nestedComments <;> cases mysqlComments <;>
    simp [h1, h2, h3, h4]

end Reduce

/-! ## The verdict -/

/-- A mode that has been gone through has nothing against the text. -/
def Passed (policy : NativeQueryPolicy) (sql : Bytes) (valid : Bool) (mode : Mode) : Prop :=
  statementHeads sql mode = .refused ∨
    valid = true ∧ ∃ heads, statementHeads sql mode = .next heads ∧ objection policy heads = none

/-- Each skipped mode reads the text as one gone through earlier. -/
def Covered (sql : Bytes) (before after : List Mode) : Prop :=
  ∀ first mode last, after = first ++ mode :: last → skips sql mode = true →
    reduce sql mode ∈ before ++ first

theorem Covered.next {sql : Bytes} {before after : List Mode} {mode : Mode}
    (h : Covered sql before (mode :: after)) : Covered sql (before ++ [mode]) after := by
  intro first skipped last heq hskips
  rw [List.append_assoc]
  exact h (mode :: first) skipped last (by rw [heq]; rfl) hskips

theorem enforceModes_eq {policy : NativeQueryPolicy} {sql : Bytes} :
    ∀ (after before : List Mode) (valid : Bool), Covered sql before after →
      (∀ mode ∈ before, Passed policy sql valid mode) →
      enforceModes policy sql (skips sql) after valid =
        enforceModes policy sql (fun _ => false) after valid := by
  intro after
  induction after with
  | nil => exact fun _ _ _ _ => rfl
  | cons mode after ih =>
    intro before valid hcovered hpassed
    have hnext {valid' : Bool} (hvalid : valid = true → valid' = true)
        (hmode : Passed policy sql valid' mode) :
        enforceModes policy sql (skips sql) after valid' =
          enforceModes policy sql (fun _ => false) after valid' := by
      refine ih (before ++ [mode]) valid' hcovered.next fun other hother => ?_
      rcases List.mem_append.1 hother with hother | hother
      · rcases hpassed other hother with h | ⟨h, hheads⟩
        · exact .inl h
        · exact .inr ⟨hvalid h, hheads⟩
      · rw [List.mem_singleton.1 hother]
        exact hmode
    rw [enforceModes, enforceModes]
    by_cases hskips : skips sql mode = true
    · -- the mode in its place among those before reads the same heads
      have hbefore := hcovered [] mode after rfl hskips
      rw [List.append_nil] at hbefore
      have hmode := hpassed _ hbefore
      unfold Passed at hmode
      rw [statementHeads_reduce] at hmode
      rw [if_pos hskips]
      rcases hmode with h | ⟨rfl, heads, h, hnone⟩
      · rw [h]
        exact hnext id (.inl h)
      · rw [h]
        dsimp only
        rw [hnone]
        exact hnext id (.inr ⟨rfl, heads, h, hnone⟩)
    · rw [if_neg hskips]
      cases h : statementHeads sql mode with
      | panics => rfl
      | refused => exact hnext id (.inl h)
      | next heads =>
        cases hnone : objection policy heads with
        | some e => simp [hnone]
        | none =>
          simp only [hnone]
          exact hnext (fun _ => rfl) (.inr ⟨rfl, heads, h, hnone⟩)

/-- Clearing flags of a mode gives the mode itself or one of a smaller number. -/
theorem modeOf_cleared : ∀ i < 8, ∀ backslash nestedComments mysqlComments : Bool,
    let cleared : Mode :=
      { backslash := (modeOf i).backslash && backslash
        nestedComments := (modeOf i).nestedComments && nestedComments
        mysqlComments := (modeOf i).mysqlComments && mysqlComments }
    cleared ≠ modeOf i → cleared ∈ modes.take i := by
  decide

theorem modes_covered (sql : Bytes) : Covered sql [] modes := by
  intro first mode last heq hskips
  have hlength : first.length < modes.length := by
    rw [heq, List.length_append, List.length_cons]
    omega
  have hget : modes[first.length]? = some mode := by
    rw [heq, List.getElem?_append_right (Nat.le_refl _), Nat.sub_self]
    rfl
  have hmode : modeOf first.length = mode := by
    rw [modes, List.length_map, List.length_range] at hlength
    rw [modes, List.getElem?_map, List.getElem?_range hlength] at hget
    exact Option.some.inj hget
  have htake : modes.take first.length = first := by
    rw [heq, List.take_append_of_le_length (Nat.le_refl _), List.take_length]
  have hne := (skips_iff sql mode).1 hskips
  rw [List.nil_append, ← htake]
  rw [← hmode] at hne ⊢
  exact modeOf_cleared first.length hlength _ _ _ hne

/-- **Running the scanner only where the modes can differ gives the verdict of all modes.** -/
theorem enforcePolicy_eq (policy : NativeQueryPolicy) (sql : Bytes) :
    enforcePolicy policy sql = enforceAll policy sql := by
  refine enforceModes_eq modes [] false (modes_covered sql) fun mode hmode => ?_
  cases hmode

theorem enforceModes_total {policy : NativeQueryPolicy} {text : List Char} {skips : Mode → Bool} :
    ∀ (modes : List Mode) (valid : Bool),
      ∃ verdict, enforceModes policy (utf8 text) skips modes valid = some verdict := by
  intro modes
  induction modes with
  | nil => exact fun valid => ⟨_, rfl⟩
  | cons mode modes ih =>
    intro valid
    rw [enforceModes]
    split
    next => exact ih valid
    next =>
      split
      next h => exact absurd h (statementHeads_total text mode)
      next => exact ih valid
      next =>
        split
        next => exact ⟨_, rfl⟩
        next => exact ih true

/-- **The policy reads every text: the modes it skips change no verdict, no mode slices inside a
character, and every turn of the scanner goes forward.** -/
theorem enforcePolicy_exact (policy : NativeQueryPolicy) (text : List Char) :
    enforcePolicy policy (utf8 text) = enforceAll policy (utf8 text) ∧
    (∃ verdict, enforcePolicy policy (utf8 text) = some verdict) ∧
    ∀ mode, statementHeads (utf8 text) mode ≠ .panics ∧
      ∀ s s', s.position < (utf8 text).length → step (utf8 text) mode s = .next s' →
        s.position < s'.position ∧ s'.position ≤ (utf8 text).length := by
  refine ⟨enforcePolicy_eq policy _, enforceModes_total modes false, fun mode => ⟨?_, ?_⟩⟩
  · exact statementHeads_total text mode
  · exact fun s s' hin hstep => step_advances hin hstep

/-- An executable comment is a delimiter error of its mode. -/
example : enforcePolicy .allow (asciiText "/*! x */") = some (.error lexicalError) := by
  decide +kernel

end Plenora.Core.StatementHeads
