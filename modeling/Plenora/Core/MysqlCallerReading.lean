import Plenora.Lib.MysqlLexer
import Plenora.Core.MysqlCallerPolicy

/-!
# What the MySQL caller policy lets through

The scanner of the policy reads a text as MySQL does, but for a line comment: it
ends one at a carriage return too, and reads what the server takes for the rest
of the comment.  Where nothing but blank space is there, an accepted text is one
statement of an allowed verb.

    ReturnsClear executable sql → enforceMysqlTransactionSql sql = .ok () →
      ReadAsOne executable sql                                            (readAsOne_of_clear)
-/

namespace Plenora.Core.MysqlCallerPolicy

open Plenora.Lib Plenora.Lib.Scanning Plenora.Core.NativeQueryPolicy
open Plenora.Lib.MysqlLexer (Token LexError)

/-! ## The property -/

def depthAfter : Nat → Token → Nat
  | depth, .symbol '(' => depth + 1
  | depth, .symbol ')' => depth - 1
  | depth, _ => depth

/-- What SET assigns, between the commas outside parentheses. -/
def assignments : Nat → List Token → List Token → List (List Token)
  | _, segment, [] => [segment]
  | depth, segment, token :: tokens =>
    if token = .symbol ',' ∧ depth = 0 then segment :: assignments 0 [] tokens
    else assignments (depthAfter depth token) (segment ++ [token]) tokens

/-- What may follow the at sign of a user variable: one quoted name, or words and dots. -/
inductive UserName : List Token → Prop where
  | quoted (quote : Char) (raw : List Char) : UserName [.quoted quote raw]
  | parts (name : List Token) (hne : name ≠ [])
      (hparts : ∀ t ∈ name, t = .symbol '.' ∨ ∃ text, t = .word text) : UserName name

/-- The left side of the assignment is a user variable. -/
def AssignsUserVariable (segment : List Token) : Prop :=
  ∃ name assigned value, UserName name ∧
    (assigned = [.symbol '='] ∨ assigned = [.symbol ':', .symbol '=']) ∧
    segment = .symbol '@' :: name ++ assigned ++ value

/-- A statement whose head, if it is a keyword, is allowed, and that sets user variables only. -/
structure Confined (statement : List Token) : Prop where
  head : ∀ text, (statement.dropWhile (· = .symbol '(')).head? = some (.word text) →
    text.all MysqlLexer.isAsciiWord = true → upper text ∈ allowed
  sets : ∀ text tokens, statement = .word text :: tokens → upper text = "SET" →
    ∀ segment ∈ assignments 0 [] tokens, AssignsUserVariable segment

section Reading

variable (executable : List Char → Except LexError (List Token × Nat))

/-- The server reads the text as one statement, and that is confined. -/
def ReadAsOne (sql : List Char) : Prop :=
  ∃ tokens statement, MysqlLexer.lex executable sql = .ok tokens ∧
    MysqlLexer.statements tokens = [statement] ∧ Confined statement

/-- In a line comment only blank space follows a carriage return. -/
def ReturnsClear (sql : List Char) : Prop :=
  ∀ text ∈ visited (MysqlLexer.step executable) sql, MysqlLexer.opensLineComment text = true →
    ((text.takeWhile (· ≠ '\n')).dropWhile (· ≠ '\r')).all isSpace = true

instance (sql : List Char) : Decidable (ReturnsClear executable sql) :=
  inferInstanceAs (Decidable (∀ text ∈ visited (MysqlLexer.step executable) sql, _))

end Reading

/-! ## The characters -/

theorem isSpace_eq (c : Char) : isSpace c = MysqlLexer.isSpace c := by
  unfold isSpace MysqlLexer.isSpace isAsciiWhitespace
  grind

theorem lineComment_eq (text : List Char) : lineComment text = MysqlLexer.opensLineComment text := by
  unfold lineComment MysqlLexer.opensLineComment
  split
  next => rfl
  next rest =>
    cases rest with
    | nil => rfl
    | cons c rest =>
      show (isAsciiWhitespace c || isAsciiControl c) = (MysqlLexer.isSpace c || MysqlLexer.isControl c)
      have hcontrol : isAsciiControl c = MysqlLexer.isControl c := by
        unfold isAsciiControl MysqlLexer.isControl
        simp only [Nat.lt_iff_le_pred (show 0 < 32 by decide)]
      rw [← isSpace_eq, hcontrol]
      unfold isSpace
      by_cases hvertical : c = '\x0b'
      · subst hvertical
        decide
      · simp [hvertical]
  next => simp_all

theorem blockComment_eq (text : List Char) :
    blockComment text = MysqlLexer.opensBlockComment text := by
  unfold blockComment MysqlLexer.opensBlockComment
  rfl

theorem executableComment_eq (text : List Char) :
    executableComment text = MysqlLexer.opensExecutable text := by
  unfold executableComment MysqlLexer.opensExecutable
  rfl

/-! ## Comments and literals -/

theorem blockComment_of_commentEnd {text rest : List Char}
    (h : commentEnd false 1 text = .ok rest) : MysqlLexer.blockComment text = .ok rest := by
  fun_induction MysqlLexer.blockComment text with
  | case1 => cases h
  | case2 rest' =>
    rw [commentEnd, if_neg (by simp), if_pos (by simp), if_pos rfl] at h
    cases h
    rfl
  | case3 c text hopen ih =>
    cases text with
    | nil => cases h
    | cons d text =>
      have hcloses : ¬ ((c = '*' && d = '/') = true) := by
        rw [Bool.and_eq_true, decide_eq_true_eq, decide_eq_true_eq]
        rintro ⟨rfl, rfl⟩
        exact hopen text rfl rfl
      rw [commentEnd, if_neg (by simp), if_neg hcloses] at h
      exact ih h

theorem commentEnd_length {text rest : List Char} (h : commentEnd false 1 text = .ok rest) :
    rest.length ≤ text.length :=
  MysqlLexer.blockComment_length (blockComment_of_commentEnd h)

theorem quotedText_of_quotedEnd {close : Char} {backslash : Bool} {text raw rest : List Char}
    (h : quotedEnd close backslash text = .ok (raw, rest)) :
    MysqlLexer.quotedText close backslash text = .ok (raw, rest) := by
  fun_induction quotedEnd close backslash text generalizing raw rest with
  | case1 => cases h
  | case2 => cases h
  | case3 c hescape d text ih =>
    obtain ⟨⟨inner, r⟩, hinner, hread⟩ := bind_eq_ok.1 h
    cases hread
    rw [MysqlLexer.quotedText, if_pos hescape]
    exact map_eq_ok.2 ⟨_, ih hinner, rfl⟩
  | case4 hescape =>
    cases h
    rw [MysqlLexer.quotedText, if_neg hescape, if_pos rfl]
  | case5 d text hescape hopen =>
    cases h
    rw [MysqlLexer.quotedText, if_neg hescape, if_pos rfl]
    exact if_neg hopen
  | case6 d text hclosed hescape ih =>
    obtain ⟨⟨inner, r⟩, hinner, hread⟩ := bind_eq_ok.1 h
    cases hread
    rw [MysqlLexer.quotedText, if_neg hescape, if_pos rfl]
    exact (if_pos (Decidable.not_not.1 hclosed)).trans (map_eq_ok.2 ⟨_, ih hinner, rfl⟩)
  | case7 c text hescape hopen ih =>
    obtain ⟨⟨inner, r⟩, hinner, hread⟩ := bind_eq_ok.1 h
    cases hread
    rw [MysqlLexer.quotedText.eq_def]
    dsimp only
    rw [if_neg hescape, if_neg hopen]
    exact map_eq_ok.2 ⟨_, ih hinner, rfl⟩

/-! ## The step of the scanner -/

theorem reads_step : Reads step := by
  intro c text tokens rest hstep
  rw [step] at hstep
  split at hstep
  next => cases hstep; exact Nat.le_refl _
  split at hstep
  next hline =>
    cases hstep
    have hfirst : inLine c = true := by
      unfold inLine
      rw [Bool.and_eq_true, decide_eq_true_eq, decide_eq_true_eq]
      constructor
      · rintro rfl
        cases hline
      · rintro rfl
        cases hline
    rw [List.dropWhile_cons_of_pos hfirst]
    exact (List.dropWhile_suffix _).length_le
  split at hstep
  next =>
    split at hstep
    next => cases hstep
    next =>
      obtain ⟨r, hcomment, hread⟩ := bind_eq_ok.1 hstep
      cases hread
      exact (commentEnd_length hcomment).trans (List.drop_suffix 1 text).length_le
  split at hstep
  next => cases hstep; exact Nat.le_refl _
  split at hstep
  next =>
    obtain ⟨⟨raw, r⟩, hquoted, hread⟩ := bind_eq_ok.1 hstep
    cases hread
    exact MysqlLexer.quotedText_length (quotedText_of_quotedEnd hquoted)
  split at hstep
  next => cases hstep; exact (List.dropWhile_suffix _).length_le
  next => cases hstep; exact Nat.le_refl _

/-! ## Words -/

/-- What the scanner makes of a word, piece by piece. -/
def pieces (text : List Char) : List Lexeme :=
  match scan step text with
  | .ok lexemes => lexemes
  | .error _ => []

/-- The lexemes of a token. -/
def render : Token → List Lexeme
  | .word text => pieces text
  | .quoted _ raw => [.token (quotedName raw)]
  | .symbol c => if c = ';' then [.semicolon] else [.token (String.singleton c)]

/-- A token of characters that words are made of. -/
def Wordy (lexeme : Lexeme) : Prop :=
  ∃ text : String, lexeme = .token text ∧ text ≠ "" ∧
    ∀ c ∈ text.toList, MysqlLexer.isWordChar c = true

/-- The characters that do not stand for themselves. -/
def marks : List Char := ['#', '-', '/', ';', '\'', '"', '\x60']

theorem step_plain {c : Char} (hspace : isSpace c = false) (hmark : c ∉ marks) (rest : List Char) :
    step (c :: rest) =
      if isWordByte c then
        .ok ([.token (upper (c :: rest.takeWhile isWordByte))], rest.dropWhile isWordByte)
      else .ok (byteTokens c, rest) := by
  have hne : ∀ mark ∈ marks, c ≠ mark := fun mark hmem heq => hmark (heq ▸ hmem)
  have hline : lineComment (c :: rest) = false := by
    unfold lineComment
    split
    next heq => exact absurd (List.cons.inj heq).1 (hne '#' (by decide))
    next heq => exact absurd (List.cons.inj heq).1 (hne '-' (by decide))
    next => rfl
  have hblock : blockComment (c :: rest) = false := by
    unfold blockComment
    split
    next heq => exact absurd (List.cons.inj heq).1 (hne '/' (by decide))
    next => rfl
  have hquote : ¬ ((c = '\'' || c = '"' || c = '\x60') = true) := by
    have hsingle := hne '\'' (by decide)
    have hdouble := hne '"' (by decide)
    have hback := hne '\x60' (by decide)
    simp [hsingle, hdouble, hback]
  rw [step, hspace, hline, hblock, if_neg (by decide), if_neg (by decide), if_neg (by decide),
    if_neg (hne ';' (by decide)), if_neg hquote]

theorem isWordByte_eq (c : Char) : isWordByte c = MysqlLexer.isAsciiWord c := rfl

theorem step_ascii {c : Char} (hc : isWordByte c = true) (rest : List Char) :
    step (c :: rest) =
      .ok ([.token (upper (c :: rest.takeWhile isWordByte))], rest.dropWhile isWordByte) := by
  have hspace : isSpace c = false := by
    by_contra hspace
    rw [Bool.not_eq_false] at hspace
    unfold isSpace isAsciiWhitespace at hspace
    simp only [Bool.or_eq_true, decide_eq_true_eq] at hspace
    rcases hspace with ((((rfl | rfl) | rfl) | rfl) | rfl) | rfl
    all_goals exact absurd hc (by decide)
  have hmark : c ∉ marks := by
    intro hmem
    simp only [marks, List.mem_cons, List.not_mem_nil, or_false] at hmem
    rcases hmem with rfl | rfl | rfl | rfl | rfl | rfl | rfl
    all_goals exact absurd hc (by decide)
  rw [step_plain hspace hmark, if_pos hc]

theorem not_isWordByte_of_wide {c : Char} (hc : 128 ≤ c.toNat) : isWordByte c = false := by
  by_contra hword
  rw [Bool.not_eq_false, isWordByte_eq, MysqlLexer.isAsciiWord_iff] at hword
  omega

theorem step_wide {c : Char} (hc : 128 ≤ c.toNat) (rest : List Char) :
    step (c :: rest) = .ok (byteTokens c, rest) := by
  have hascii : ∀ d : Char, d.toNat < 128 → c ≠ d := by
    rintro d hd rfl
    omega
  have hspace : isSpace c = false := by
    unfold isSpace isAsciiWhitespace
    simp [hascii '\t' (by decide), hascii '\n' (by decide), hascii '\x0c' (by decide),
      hascii '\r' (by decide), hascii ' ' (by decide), hascii '\x0b' (by decide)]
  have hmark : c ∉ marks := by
    intro hmem
    simp only [marks, List.mem_cons, List.not_mem_nil, or_false] at hmem
    rcases hmem with rfl | rfl | rfl | rfl | rfl | rfl | rfl
    all_goals exact absurd hc (by decide)
  have hword : ¬ isWordByte c = true := by
    rw [not_isWordByte_of_wide hc]
    decide
  rw [step_plain hspace hmark, if_neg hword]

theorem isWordChar_toUpper {c : Char} (h : isWordByte c = true) :
    MysqlLexer.isWordChar c.toUpper = true := by
  unfold MysqlLexer.isWordChar
  rw [MysqlLexer.isAsciiWord_toUpper, ← isWordByte_eq, h]
  rfl

theorem wordy_upper {text : List Char} (hne : text ≠ []) (h : ∀ c ∈ text, isWordByte c = true) :
    Wordy (.token (upper text)) := by
  refine ⟨upper text, rfl, ?_, ?_⟩
  · intro hempty
    have : text.map Char.toUpper = [] := by
      have := congrArg String.toList hempty
      simpa [upper] using this
    exact hne (List.map_eq_nil_iff.1 this)
  · intro c hc
    unfold upper at hc
    rw [String.toList_ofList] at hc
    obtain ⟨d, hd, rfl⟩ := List.mem_map.1 hc
    exact isWordChar_toUpper (h d hd)

theorem utf8EncodeChar_wide {c : Char} (hc : 128 ≤ c.toNat) :
    ∀ byte ∈ String.utf8EncodeChar c, 128 ≤ byte.toNat := by
  have hcode : c.val.toNat = c.toNat := rfl
  have hbyte : ∀ x y, 128 ≤ x + y → x + y < 256 → 128 ≤ (UInt8.ofNat (x + y)).toNat := by
    intro x y hlow hhigh
    rw [UInt8.toNat_ofNat', Nat.mod_eq_of_lt hhigh]
    exact hlow
  intro byte hmem
  unfold String.utf8EncodeChar at hmem
  dsimp only at hmem
  rw [hcode, if_neg (by omega)] at hmem
  split at hmem
  next =>
    simp only [List.mem_cons, List.not_mem_nil, or_false] at hmem
    rcases hmem with rfl | rfl
    all_goals exact hbyte _ _ (by omega) (by omega)
  next =>
    split at hmem
    next =>
      simp only [List.mem_cons, List.not_mem_nil, or_false] at hmem
      rcases hmem with rfl | rfl | rfl
      all_goals exact hbyte _ _ (by omega) (by omega)
    next =>
      simp only [List.mem_cons, List.not_mem_nil, or_false] at hmem
      rcases hmem with rfl | rfl | rfl | rfl
      all_goals exact hbyte _ _ (by omega) (by omega)

theorem wordy_byteTokens {c : Char} (hc : 128 ≤ c.toNat) :
    ∀ lexeme ∈ byteTokens c, Wordy lexeme := by
  intro lexeme hmem
  obtain ⟨byte, hbyte, rfl⟩ := List.mem_map.1 hmem
  have hwide := utf8EncodeChar_wide hc byte hbyte
  have hlt : byte.toNat < 256 := byte.toNat_lt
  refine ⟨_, rfl, ?_, ?_⟩
  · intro hempty
    have := congrArg String.toList hempty
    simp at this
  · intro d hd
    rw [String.toList_singleton, List.mem_singleton] at hd
    subst hd
    unfold MysqlLexer.isWordChar
    rw [Char.toNat_ofNat, if_pos (.inl (by omega))]
    simp [hwide]

/-! ## A whole word -/

/-- The scanner's pieces of a word. -/
structure Pieces (text : List Char) (lexemes : List Lexeme) : Prop where
  wordy : ∀ lexeme ∈ lexemes, Wordy lexeme
  nonempty : text ≠ [] → lexemes ≠ []
  ascii : text ≠ [] → text.all MysqlLexer.isAsciiWord = true → lexemes = [.token (upper text)]

/-- **The scanner reads a word piece by piece, and what follows by itself.** -/
theorem scan_word (text : List Char) (htext : ∀ c ∈ text, MysqlLexer.isWordChar c = true)
    {after : List Char} (hafter : after.head?.all (!MysqlLexer.isWordChar ·) = true) :
    ∃ lexemes, Pieces text lexemes ∧ scan step text = .ok lexemes ∧
      scan step (text ++ after) = (scan step after).map (lexemes ++ ·) := by
  induction hn : text.length using Nat.strong_induction_on generalizing text with
  | _ n ih =>
    subst hn
    cases text with
    | nil =>
      refine ⟨[], ⟨fun _ h => (by cases h), fun h => absurd rfl h, fun h => absurd rfl h⟩, rfl, ?_⟩
      show scan step after = (scan step after).map id
      cases scan step after <;> rfl
    | cons c text =>
      have hrest : ∀ d ∈ text, MysqlLexer.isWordChar d = true :=
        fun d hd => htext d (List.mem_cons_of_mem _ hd)
      by_cases hword : isWordByte c = true
      · -- a run of ASCII, then what is left of the word
        let run := c :: text.takeWhile isWordByte
        let rest := text.dropWhile isWordByte
        have hsuffix : rest <:+ text := List.dropWhile_suffix _
        obtain ⟨lexemes, hpieces, hscan, hafterScan⟩ := ih rest.length
          (Nat.lt_succ_of_le hsuffix.length_le) rest (fun d hd => hrest d (hsuffix.mem hd)) rfl
        have hstep := step_ascii hword text
        have hstop : after.head?.all (!isWordByte ·) = true := by
          cases after with
          | nil => rfl
          | cons d after =>
            have hd : MysqlLexer.isWordChar d = false := by simpa using hafter
            unfold MysqlLexer.isWordChar at hd
            rw [Bool.or_eq_false_iff] at hd
            show (!isWordByte d) = true
            rw [isWordByte_eq, hd.1]
            rfl
        have hstep' : step (c :: (text ++ after)) = .ok ([.token (upper run)], rest ++ after) := by
          obtain ⟨htake, hdrop⟩ := span_append hstop text
          rw [step_ascii hword, htake, hdrop]
        refine ⟨.token (upper run) :: lexemes, ⟨?_, fun _ => List.cons_ne_nil _ _, ?_⟩, ?_, ?_⟩
        · intro lexeme hmem
          rcases List.mem_cons.1 hmem with rfl | hmem
          · refine wordy_upper (List.cons_ne_nil _ _) fun d hd => ?_
            rcases List.mem_cons.1 hd with rfl | hd
            · exact hword
            · exact List.mem_takeWhile_imp hd
          · exact hpieces.wordy lexeme hmem
        · intro _ hascii
          rw [List.all_cons, Bool.and_eq_true] at hascii
          have hall : text.takeWhile isWordByte = text :=
            List.takeWhile_eq_self_iff.2 fun d hd => List.all_eq_true.1 hascii.2 d hd
          have hnone : rest = [] :=
            List.dropWhile_eq_nil_iff.2 fun d hd => List.all_eq_true.1 hascii.2 d hd
          rw [hnone] at hscan
          cases hscan
          show [Lexeme.token (upper (c :: text.takeWhile isWordByte))] = _
          rw [hall]
        · rw [scan_step reads_step hstep, hscan]
          rfl
        · rw [List.cons_append, scan_step reads_step hstep', hafterScan]
          cases scan step after <;> rfl
      · have hwide : 128 ≤ c.toNat := by
          have hchar := htext c List.mem_cons_self
          unfold MysqlLexer.isWordChar at hchar
          rw [← isWordByte_eq, Bool.or_eq_true, decide_eq_true_eq] at hchar
          exact hchar.resolve_left hword
        obtain ⟨lexemes, hpieces, hscan, hafterScan⟩ := ih text.length (Nat.lt_succ_self _) text hrest rfl
        refine ⟨byteTokens c ++ lexemes, ⟨?_, fun _ => ?_, ?_⟩, ?_, ?_⟩
        · intro lexeme hmem
          rcases List.mem_append.1 hmem with hmem | hmem
          · exact wordy_byteTokens hwide lexeme hmem
          · exact hpieces.wordy lexeme hmem
        · intro hempty
          have hbytes := (List.append_eq_nil_iff.1 hempty).1
          exact String.utf8EncodeChar_ne_nil (List.map_eq_nil_iff.1 hbytes)
        · intro _ hascii
          rw [List.all_cons, Bool.and_eq_true] at hascii
          exact absurd hascii.1 hword
        · rw [scan_step reads_step (step_wide hwide text), hscan]
          rfl
        · rw [List.cons_append, scan_step reads_step (step_wide hwide (text ++ after)), hafterScan]
          cases scan step after with
          | error e => rfl
          | ok more => exact congrArg Except.ok (List.append_assoc _ _ _).symm

/-! ## The two readings -/

/-- What the lexer makes of words and symbols. -/
def Lexed : Token → Prop
  | .word text => text ≠ [] ∧ ∀ c ∈ text, MysqlLexer.isWordChar c = true
  | .quoted _ _ => True
  | .symbol c => MysqlLexer.isWordChar c = false

theorem scan_blanks {blanks : List Char} (h : blanks.all isSpace = true) (rest : List Char) :
    scan step (blanks ++ rest) = scan step rest := by
  induction blanks with
  | nil => rfl
  | cons c blanks ih =>
    rw [List.all_cons, Bool.and_eq_true] at h
    have hstep : step (c :: (blanks ++ rest)) = .ok ([], blanks ++ rest) := by
      rw [step, if_pos h.1]
    rw [List.cons_append, scan_step reads_step hstep, ih h.2]
    cases scan step rest <;> rfl

/-- Where the scanner leaves a line comment: before its first carriage return. -/
theorem dropWhile_inLine (text : List Char) :
    text.dropWhile inLine =
      (text.takeWhile (· ≠ '\n')).dropWhile (· ≠ '\r') ++ text.dropWhile (· ≠ '\n') := by
  induction text with
  | nil => rfl
  | cons c text ih =>
    by_cases hfeed : c = '\n'
    · subst hfeed
      rfl
    · by_cases hreturn : c = '\r'
      · subst hreturn
        have hstays : inLine '\r' = false := rfl
        rw [List.dropWhile_cons, hstays]
        simp [List.takeWhile_append_dropWhile]
      · have hin : inLine c = true := by simp [inLine, hfeed, hreturn]
        rw [List.dropWhile_cons, hin]
        simp [hfeed, hreturn, ih]

section Agreement

variable {executable : List Char → Except LexError (List Token × Nat)}

theorem ReturnsClear.after {c : Char} {text rest : List Char} {tokens : List Token}
    (h : ReturnsClear executable (c :: text))
    (hstep : MysqlLexer.step executable (c :: text) = .ok (tokens, rest)) :
    ReturnsClear executable rest :=
  fun at_ hat => h at_ (visited_step (MysqlLexer.reads_step executable) hstep hat)

/-- The lexemes of an accepted text are those of the tokens the server reads. -/
structure Agrees (executable : List Char → Except LexError (List Token × Nat)) (text : List Char)
    (lexemes : List Lexeme) : Prop where
  agrees : ∃ tokens, MysqlLexer.lex executable text = .ok tokens ∧
    lexemes = tokens.flatMap render ∧ ∀ t ∈ tokens, Lexed t

theorem Agrees.cons {c : Char} {text rest : List Char} {tokens : List Token}
    {lexemes : List Lexeme} (h : Agrees executable rest lexemes)
    (hstep : MysqlLexer.step executable (c :: text) = .ok (tokens, rest))
    (hlexed : ∀ t ∈ tokens, Lexed t) :
    Agrees executable (c :: text) (tokens.flatMap render ++ lexemes) := by
  obtain ⟨more, hlex, rfl, hmore⟩ := h.agrees
  refine ⟨tokens ++ more, ?_, (List.flatMap_append).symm, fun t ht => ?_⟩
  · unfold MysqlLexer.lex at hlex ⊢
    rw [scan_step (MysqlLexer.reads_step executable) hstep, hlex]
    rfl
  · rcases List.mem_append.1 ht with ht | ht
    · exact hlexed t ht
    · exact hmore t ht

theorem scan_map_ok {text : List Char} {pre lexemes : List Lexeme}
    (h : (scan step text).map (pre ++ ·) = .ok lexemes) :
    ∃ more, scan step text = .ok more ∧ lexemes = pre ++ more := by
  obtain ⟨more, hmore, rfl⟩ := map_eq_ok.1 h
  exact ⟨more, hmore, rfl⟩

theorem lineComment_agrees {c : Char} {rest : List Char} {lexemes : List Lexeme}
    (ih : ∀ text, text.length < (c :: rest).length → ∀ lexemes, ReturnsClear executable text →
      scan step text = .ok lexemes → Agrees executable text lexemes)
    (hclear : ReturnsClear executable (c :: rest)) (hspace : isSpace c = false)
    (hline : lineComment (c :: rest) = true) (h : scan step (c :: rest) = .ok lexemes) :
    Agrees executable (c :: rest) lexemes := by
  have hopens : MysqlLexer.opensLineComment (c :: rest) = true := (lineComment_eq _).symm.trans hline
  have hblanks := hclear _ (visited_head _ c rest) hopens
  have hstep : step (c :: rest) = .ok ([], (c :: rest).dropWhile inLine) := by
    rw [step, if_neg (by rw [hspace]; decide), if_pos hline]
  have hserver : MysqlLexer.step executable (c :: rest) =
      .ok ([], (c :: rest).dropWhile (· ≠ '\n')) := by
    rw [MysqlLexer.step, if_neg (by rw [← isSpace_eq, hspace]; decide), if_pos hopens]
  obtain ⟨more, hmore, hlexemes⟩ := scan_map_ok ((scan_step reads_step hstep).symm.trans h)
  rw [dropWhile_inLine, scan_blanks hblanks] at hmore
  rw [hlexemes]
  have hshorter := MysqlLexer.reads_step executable c rest _ _ hserver
  exact (ih _ (Nat.lt_succ_of_le hshorter) more (hclear.after hserver) hmore).cons hserver
    fun _ ht => (by cases ht)

theorem blockComment_of_executable {text : List Char} (h : executableComment text = true) :
    blockComment text = true := by
  unfold executableComment at h
  split at h
  next => rfl
  next => rfl
  next => cases h

theorem blockComment_of_word {c : Char} (h : MysqlLexer.isWordChar c = true) (rest : List Char) :
    blockComment (c :: rest) = false := by
  unfold blockComment
  split
  next heq =>
    cases (List.cons.inj heq).1
    exact absurd h (by decide)
  next => rfl

theorem byteTokens_ascii {c : Char} (h : c.toNat < 128) :
    byteTokens c = [.token (String.singleton c)] := by
  have hcode : c.val.toNat = c.toNat := rfl
  have hbyte : (UInt8.ofNat c.toNat).toNat = c.toNat := by
    rw [UInt8.toNat_ofNat']
    omega
  unfold byteTokens String.utf8EncodeChar
  dsimp only
  rw [hcode, if_pos (by omega), List.map_singleton, hbyte, Char.ofNat_toNat]

theorem word_agrees {c : Char} {rest : List Char} {lexemes : List Lexeme}
    (ih : ∀ text, text.length < (c :: rest).length → ∀ lexemes, ReturnsClear executable text →
      scan step text = .ok lexemes → Agrees executable text lexemes)
    (hclear : ReturnsClear executable (c :: rest)) (hspace : ¬ MysqlLexer.isSpace c = true)
    (hline : ¬ MysqlLexer.opensLineComment (c :: rest) = true)
    (hword : MysqlLexer.isWordChar c = true) (h : scan step (c :: rest) = .ok lexemes) :
    Agrees executable (c :: rest) lexemes := by
  let run := rest.takeWhile MysqlLexer.isWordChar
  let after := rest.dropWhile MysqlLexer.isWordChar
  have hsplit : c :: rest = (c :: run) ++ after := by
    rw [List.cons_append, List.takeWhile_append_dropWhile]
  have hrun : ∀ d ∈ c :: run, MysqlLexer.isWordChar d = true := by
    intro d hd
    rcases List.mem_cons.1 hd with rfl | hd
    · exact hword
    · exact List.mem_takeWhile_imp hd
  have hafter : after.head?.all (!MysqlLexer.isWordChar ·) = true := by
    cases hhead : after.head? with
    | none => rfl
    | some d =>
      have hstops := List.head?_dropWhile_not MysqlLexer.isWordChar rest
      rw [hhead] at hstops
      simpa using hstops
  have hserver : MysqlLexer.step executable (c :: rest) = .ok ([.word (c :: run)], after) := by
    have hexecutable : ¬ executableComment (c :: rest) = true := by
      refine mt blockComment_of_executable ?_
      rw [blockComment_of_word hword]
      decide
    have hquote : ¬ MysqlLexer.isQuote c = true := by
      intro hquote
      unfold MysqlLexer.isQuote at hquote
      simp only [Bool.or_eq_true, decide_eq_true_eq] at hquote
      rcases hquote with (rfl | rfl) | rfl
      all_goals exact absurd hword (by decide)
    rw [MysqlLexer.step, if_neg hspace, if_neg hline, ← executableComment_eq, if_neg hexecutable,
      ← blockComment_eq, if_neg (by rw [blockComment_of_word hword]; decide), if_neg hquote,
      if_pos hword]
  obtain ⟨pre, -, hpre, hscan⟩ := scan_word (c :: run) hrun hafter
  rw [hsplit, hscan] at h
  obtain ⟨more, hmore, rfl⟩ := scan_map_ok h
  have hrender : pre = [Token.word (c :: run)].flatMap render := by
    show pre = pieces (c :: run) ++ []
    unfold pieces
    rw [hpre, List.append_nil]
  rw [hrender]
  refine (ih after ?_ more (hclear.after hserver) hmore).cons hserver fun t ht => ?_
  · exact Nat.lt_succ_of_le (List.dropWhile_suffix _).length_le
  · cases List.mem_singleton.1 ht
    exact ⟨List.cons_ne_nil _ _, hrun⟩

/-- **Where returns are clear, an accepted text is read as the server reads it.** -/
theorem agrees_of_scan (text : List Char) (lexemes : List Lexeme)
    (hclear : ReturnsClear executable text) (h : scan step text = .ok lexemes) :
    Agrees executable text lexemes := by
  induction hn : text.length using Nat.strong_induction_on generalizing text lexemes with
  | _ n ihn =>
  subst hn
  have ih : ∀ text', text'.length < text.length → ∀ lexemes, ReturnsClear executable text' →
      scan step text' = .ok lexemes → Agrees executable text' lexemes :=
    fun text' hlt lexemes hclear h => ihn _ hlt text' lexemes hclear h rfl
  cases text with
  | nil =>
    cases h
    exact ⟨[], rfl, rfl, fun _ ht => (by cases ht)⟩
  | cons c rest =>
  cases hspace : isSpace c with
  | true =>
    have hstep : step (c :: rest) = .ok ([], rest) := by rw [step, if_pos hspace]
    have hserver : MysqlLexer.step executable (c :: rest) = .ok ([], rest) := by
      rw [MysqlLexer.step, if_pos ((isSpace_eq c).symm.trans hspace)]
    obtain ⟨more, hmore, hlexemes⟩ := scan_map_ok ((scan_step reads_step hstep).symm.trans h)
    rw [hlexemes]
    exact (ih rest (Nat.lt_succ_self _) more (hclear.after hserver) hmore).cons hserver
      fun _ ht => (by cases ht)
  | false =>
  cases hline : lineComment (c :: rest) with
  | true => exact lineComment_agrees ih hclear hspace hline h
  | false =>
  have hspace' : ¬ MysqlLexer.isSpace c = true := by rw [← isSpace_eq, hspace]; decide
  have hline' : ¬ MysqlLexer.opensLineComment (c :: rest) = true := by
    rw [← lineComment_eq, hline]
    decide
  cases hword : MysqlLexer.isWordChar c with
  | true => exact word_agrees ih hclear hspace' hline' hword h
  | false =>
  have hread : ∃ read, step (c :: rest) = .ok read := by
    cases hstep : step (c :: rest) with
    | ok read => exact ⟨read, rfl⟩
    | error e =>
      rw [scan_cons reads_step, hstep] at h
      cases h
  obtain ⟨⟨pre, after⟩, hstep⟩ := hread
  obtain ⟨more, hmore, rfl⟩ := scan_map_ok ((scan_step reads_step hstep).symm.trans h)
  have hshorter := reads_step c rest pre after hstep
  have finish : ∀ tokens, MysqlLexer.step executable (c :: rest) = .ok (tokens, after) →
      (∀ t ∈ tokens, Lexed t) → tokens.flatMap render = pre →
        Agrees executable (c :: rest) (pre ++ more) := by
    rintro tokens hserver hlexed rfl
    exact (ih after (Nat.lt_succ_of_le hshorter) more (hclear.after hserver) hmore).cons
      hserver hlexed
  rw [step, if_neg (by rw [hspace]; decide), if_neg (by rw [hline]; decide)] at hstep
  have hserver := MysqlLexer.step.eq_2 executable c rest
  rw [if_neg hspace', if_neg hline', ← executableComment_eq, ← blockComment_eq] at hserver
  by_cases hblock : blockComment (c :: rest) = true
  · rw [if_pos hblock] at hstep
    by_cases hexecutable : executableComment (c :: rest) = true
    · rw [if_pos hexecutable] at hstep
      cases hstep
    · rw [if_neg hexecutable] at hstep
      obtain ⟨r, hcomment, hread⟩ := bind_eq_ok.1 hstep
      cases hread
      rw [if_neg hexecutable, if_pos hblock, blockComment_of_commentEnd hcomment] at hserver
      exact finish [] hserver (fun _ ht => (by cases ht)) rfl
  · have hplain : ¬ executableComment (c :: rest) = true := mt blockComment_of_executable hblock
    rw [if_neg hplain, if_neg hblock] at hserver
    rw [if_neg hblock] at hstep
    by_cases hsemicolon : c = ';'
    · subst hsemicolon
      rw [if_pos rfl] at hstep
      cases hstep
      exact finish [.symbol ';'] hserver (fun t ht => List.mem_singleton.1 ht ▸ hword) rfl
    rw [if_neg hsemicolon] at hstep
    by_cases hquote : MysqlLexer.isQuote c = true
    · have hquote' : (c = '\'' || c = '"' || c = '\x60') = true := hquote
      rw [if_pos hquote] at hserver
      rw [if_pos hquote'] at hstep
      obtain ⟨⟨raw, r⟩, hquoted, hread⟩ := bind_eq_ok.1 hstep
      cases hread
      rw [quotedText_of_quotedEnd hquoted] at hserver
      exact finish [.quoted c raw] hserver (fun t ht => List.mem_singleton.1 ht ▸ trivial) rfl
    · rw [if_neg hquote, if_neg (by rw [hword]; decide)] at hserver
      unfold MysqlLexer.isWordChar at hword
      rw [Bool.or_eq_false_iff, decide_eq_false_iff_not] at hword
      have hquote' : ¬ (c = '\'' || c = '"' || c = '\x60') = true := hquote
      rw [if_neg hquote', if_neg (by rw [isWordByte_eq, hword.1]; decide)] at hstep
      cases hstep
      refine finish [.symbol c] hserver (fun t ht => List.mem_singleton.1 ht ▸ ?_) ?_
      · show MysqlLexer.isWordChar c = false
        unfold MysqlLexer.isWordChar
        rw [hword.1, Bool.false_or, decide_eq_false_iff_not]
        exact hword.2
      · show (if c = ';' then _ else _) ++ [] = _
        rw [if_neg hsemicolon, List.append_nil, byteTokens_ascii (by omega)]

end Agreement

/-! ## The tokens of a statement -/

/-- The strings of a token, as the policy sees them. -/
def texts (t : Token) : List String := (render t).filterMap Lexeme.text?

theorem texts_word (text : List Char) :
    texts (.word text) = (pieces text).filterMap Lexeme.text? := rfl

theorem texts_symbol {c : Char} (hc : c ≠ ';') : texts (.symbol c) = [String.singleton c] := by
  unfold texts
  rw [render, if_neg hc]
  rfl

/-- A token inside a statement. -/
def Plain (t : Token) : Prop := Lexed t ∧ t ≠ .symbol ';'

/-- The characters that the policy looks for. -/
def punctuation : List Char := ['(', ')', ',', '@', ':', '=']

theorem not_wordy_punctuation {c : Char} (hc : c ∈ punctuation) :
    ¬ Wordy (.token (String.singleton c)) := by
  rintro ⟨text, htext, -, hall⟩
  cases htext
  have hword := hall c (by rw [String.toList_singleton]; exact List.mem_singleton_self c)
  simp only [punctuation, List.mem_cons, List.not_mem_nil, or_false] at hc
  rcases hc with rfl | rfl | rfl | rfl | rfl | rfl
  all_goals exact absurd hword (by decide)

theorem quotedName_ne {c : Char} (hc : c ∈ punctuation) (raw : List Char) :
    quotedName raw ≠ String.singleton c := by
  intro h
  unfold quotedName at h
  split at h
  next hname =>
    rw [h] at hname
    simp only [punctuation, List.mem_cons, List.not_mem_nil, or_false] at hc
    rcases hc with rfl | rfl | rfl | rfl | rfl | rfl
    all_goals exact absurd hname (by decide)
  next =>
    simp only [punctuation, List.mem_cons, List.not_mem_nil, or_false] at hc
    rcases hc with rfl | rfl | rfl | rfl | rfl | rfl
    all_goals exact absurd h (by decide)

theorem pieces_word {text : List Char} (h : Lexed (.word text)) : Pieces text (pieces text) := by
  obtain ⟨lexemes, hpieces, hscan, -⟩ := @scan_word text h.2 [] rfl
  unfold pieces
  rw [hscan]
  exact hpieces

theorem wordy_texts {text : List Char} (h : Lexed (.word text)) :
    ∀ s ∈ texts (.word text), Wordy (.token s) := by
  intro s hs
  obtain ⟨lexeme, hmem, hs⟩ := List.mem_filterMap.1 hs
  have hwordy := (pieces_word h).wordy lexeme hmem
  obtain ⟨s', rfl, -⟩ := hwordy
  cases hs
  exact (pieces_word h).wordy _ hmem

/-- The punctuation of a statement is the server's. -/
theorem symbol_of_mem {t : Token} (ht : Plain t) {c : Char} (hc : c ∈ punctuation)
    (h : String.singleton c ∈ texts t) : t = .symbol c := by
  cases t with
  | word text => exact absurd (wordy_texts ht.1 _ h) (not_wordy_punctuation hc)
  | quoted quote raw => exact absurd (List.mem_singleton.1 h).symm (quotedName_ne hc raw)
  | symbol d =>
    have hd : d ≠ ';' := fun hd => ht.2 (by rw [hd])
    rw [texts_symbol hd] at h
    have hsingle := congrArg String.toList (List.mem_singleton.1 h)
    rw [String.toList_singleton, String.toList_singleton] at hsingle
    cases hsingle
    rfl

theorem texts_punctuation {c : Char} (hc : c ∈ punctuation) :
    texts (.symbol c) = [String.singleton c] := by
  refine texts_symbol ?_
  rintro rfl
  exact absurd hc (by decide)

theorem texts_ne_nil {t : Token} (ht : Plain t) : texts t ≠ [] := by
  cases t with
  | word text =>
    have hpieces := pieces_word ht.1
    intro hnone
    cases hlexemes : pieces text with
    | nil => exact hpieces.nonempty ht.1.1 hlexemes
    | cons lexeme lexemes =>
      obtain ⟨s, rfl, -⟩ := hpieces.wordy lexeme (by rw [hlexemes]; exact List.mem_cons_self)
      rw [texts_word, hlexemes] at hnone
      cases hnone
  | quoted quote raw => exact List.cons_ne_nil _ _
  | symbol c =>
    have hc : c ≠ ';' := fun hc => ht.2 (by rw [hc])
    rw [texts_symbol hc]
    exact List.cons_ne_nil _ _

theorem texts_ascii {text : List Char} (h : Lexed (.word text))
    (hascii : text.all MysqlLexer.isAsciiWord = true) : texts (.word text) = [upper text] := by
  rw [texts_word, (pieces_word h).ascii h.1 hascii]
  rfl

/-- The first text of a token that starts with punctuation is that symbol. -/
theorem first_text {ts : List Token} (hts : ∀ t ∈ ts, Plain t) {c : Char} (hc : c ∈ punctuation)
    {tail : List String} (h : ts.flatMap texts = String.singleton c :: tail) :
    ∃ ts', ts = .symbol c :: ts' ∧ tail = ts'.flatMap texts := by
  cases ts with
  | nil => cases h
  | cons t ts =>
    have ht := hts t List.mem_cons_self
    rw [List.flatMap_cons] at h
    cases htexts : texts t with
    | nil => exact absurd htexts (texts_ne_nil ht)
    | cons s ss =>
      rw [htexts, List.cons_append] at h
      obtain ⟨hs, htail⟩ := List.cons.inj h
      have hsymbol := symbol_of_mem ht hc (by rw [htexts, hs]; exact List.mem_cons_self)
      subst hsymbol
      rw [texts_punctuation hc] at htexts
      cases htexts
      exact ⟨ts, rfl, htail.symm⟩

/-- The parentheses that open a statement. -/
theorem dropWhile_texts {ts : List Token} (hts : ∀ t ∈ ts, Plain t) :
    (ts.flatMap texts).dropWhile (· = "(") =
      (ts.dropWhile (· = .symbol '(')).flatMap texts := by
  induction ts with
  | nil => rfl
  | cons t ts ih =>
    have ht := hts t List.mem_cons_self
    have hopen : '(' ∈ punctuation := by decide
    by_cases hparen : t = .symbol '('
    · subst hparen
      rw [List.flatMap_cons, texts_punctuation hopen, List.singleton_append,
        List.dropWhile_cons_of_pos (by decide), List.dropWhile_cons_of_pos (by simp)]
      exact ih fun t ht => hts t (List.mem_cons_of_mem _ ht)
    · rw [List.dropWhile_cons_of_neg (by simpa using hparen), List.flatMap_cons]
      cases htexts : texts t with
      | nil => exact absurd htexts (texts_ne_nil ht)
      | cons s ss =>
        have hs : s ≠ "(" := by
          rintro rfl
          exact hparen (symbol_of_mem ht hopen (by rw [htexts]; exact List.mem_cons_self))
        rw [List.cons_append, List.dropWhile_cons_of_neg (by simpa using hs)]

/-! ## SET -/

/-- The assignments of a statement, from the one that is being read. -/
def AssignmentsEnd (assigned : List (List Token)) (segment ts : List Token) (rest : List String) :
    Prop :=
  (rest = [] ∧ assigned = [segment ++ ts]) ∨
    ∃ value ts', ts = value ++ .symbol ',' :: ts' ∧ rest = "," :: ts'.flatMap texts ∧
      assigned = (segment ++ value) :: assignments 0 [] ts'

theorem AssignmentsEnd.cons {assigned : List (List Token)} {segment ts : List Token} {t : Token}
    {rest : List String} (h : AssignmentsEnd assigned (segment ++ [t]) ts rest) :
    AssignmentsEnd assigned segment (t :: ts) rest := by
  rcases h with ⟨hrest, hassigned⟩ | ⟨value, ts', rfl, hrest, hassigned⟩
  · refine .inl ⟨hrest, ?_⟩
    rw [hassigned, List.append_assoc, List.singleton_append]
  · refine .inr ⟨t :: value, ts', rfl, hrest, ?_⟩
    rw [hassigned, List.append_assoc, List.singleton_append]

theorem valueEnd_run {strings : List String} (h : ∀ s ∈ strings, s ≠ "(" ∧ s ≠ ")" ∧ s ≠ ",")
    (depth : Nat) (rest : List String) :
    valueEnd depth (strings ++ rest) = valueEnd depth rest := by
  induction strings with
  | nil => rfl
  | cons s strings ih =>
    obtain ⟨hopen, hclose, hcomma⟩ := h s List.mem_cons_self
    rw [List.cons_append, valueEnd, if_neg hopen, if_neg hclose, if_neg fun hs => hcomma hs.1]
    exact ih fun s hs => h s (List.mem_cons_of_mem _ hs)

theorem assignments_cons {depth : Nat} {segment ts : List Token} {t : Token}
    (h : ¬ (t = .symbol ',' ∧ depth = 0)) :
    assignments depth segment (t :: ts) =
      assignments (depthAfter depth t) (segment ++ [t]) ts := by
  rw [assignments, if_neg h]

/-- A value to its comma, read from the strings and from the tokens. -/
theorem valueEnd_texts {ts : List Token} (hts : ∀ t ∈ ts, Plain t) (depth : Nat)
    (segment : List Token) {d : Nat} {rest : List String}
    (h : valueEnd depth (ts.flatMap texts) = .ok (d, rest)) :
    AssignmentsEnd (assignments depth segment ts) segment ts rest := by
  induction ts generalizing depth segment with
  | nil =>
    cases h
    refine .inl ⟨rfl, ?_⟩
    rw [List.append_nil]
    rfl
  | cons t ts ih =>
    have ht := hts t List.mem_cons_self
    have hrest : ∀ t ∈ ts, Plain t := fun t ht => hts t (List.mem_cons_of_mem _ ht)
    rw [List.flatMap_cons] at h
    by_cases hopen : t = .symbol '('
    · subst hopen
      rw [texts_punctuation (by decide), List.singleton_append, valueEnd, if_pos (by decide)] at h
      rw [assignments_cons (by simp)]
      exact (ih hrest _ _ h).cons
    by_cases hclose : t = .symbol ')'
    · subst hclose
      rw [texts_punctuation (by decide), List.singleton_append, valueEnd, if_neg (by decide),
        if_pos (by decide)] at h
      split at h
      next => cases h
      next =>
        rw [assignments_cons (by simp)]
        exact (ih hrest _ _ h).cons
    by_cases hcomma : t = .symbol ','
    · subst hcomma
      rw [texts_punctuation (by decide), List.singleton_append, valueEnd, if_neg (by decide),
        if_neg (by decide)] at h
      by_cases hdepth : depth = 0
      · rw [if_pos ⟨by decide, hdepth⟩] at h
        cases h
        refine .inr ⟨[], ts, rfl, rfl, ?_⟩
        rw [assignments, if_pos ⟨rfl, hdepth⟩, List.append_nil]
      · rw [if_neg fun hs => hdepth hs.2] at h
        rw [assignments_cons fun hs => hdepth hs.2]
        exact (ih hrest _ _ h).cons
    · have hrun : ∀ s ∈ texts t, s ≠ "(" ∧ s ≠ ")" ∧ s ≠ "," := by
        intro s hs
        refine ⟨?_, ?_, ?_⟩
        · rintro rfl
          exact hopen (symbol_of_mem ht (by decide) hs)
        · rintro rfl
          exact hclose (symbol_of_mem ht (by decide) hs)
        · rintro rfl
          exact hcomma (symbol_of_mem ht (by decide) hs)
      have hdepth : depthAfter depth t = depth := by
        unfold depthAfter
        split
        next => exact absurd rfl hopen
        next => exact absurd rfl hclose
        next => rfl
      rw [valueEnd_run hrun] at h
      rw [assignments_cons fun hs => hcomma hs.1, hdepth]
      exact (ih hrest _ _ h).cons

/-- The token of a name that the policy admits, and nothing else of it. -/
theorem userName_of_text {t : Token} (ht : Plain t) {name : String} {more : List String}
    (htexts : texts t = name :: more) (hname : asciiUserName name = true) :
    (∃ text s ss, t = .word text ∧ more = s :: ss) ∨ (more = [] ∧ UserName [t] ∧
      (t = .symbol '.' ∨ (∃ text, t = .word text) ∨ ∃ quote raw, t = .quoted quote raw)) := by
  cases t with
  | word text =>
    cases more with
    | nil =>
      refine .inr ⟨rfl, .parts _ (List.cons_ne_nil _ _) fun t ht => ?_, .inr (.inl ⟨text, rfl⟩)⟩
      exact .inr ⟨text, List.mem_singleton.1 ht⟩
    | cons s ss => exact .inl ⟨text, s, ss, rfl, rfl⟩
  | quoted quote raw =>
    cases htexts
    exact .inr ⟨rfl, .quoted quote raw, .inr (.inr ⟨quote, raw, rfl⟩)⟩
  | symbol c =>
    have hne : c ≠ ';' := fun hc => ht.2 (by rw [hc])
    rw [texts_symbol hne] at htexts
    cases htexts
    have hdot : c = '.' := by
      have hword : MysqlLexer.isWordChar c = false := ht.1
      unfold MysqlLexer.isWordChar MysqlLexer.isAsciiWord at hword
      unfold asciiUserName at hname
      rw [String.toList_singleton] at hname
      simp only [Bool.or_eq_false_iff] at hword
      simpa [hword.1.1.1, hword.1.1.2, hword.1.2] using hname
    subst hdot
    refine .inr ⟨rfl, .parts _ (List.cons_ne_nil _ _) fun t ht => ?_, .inl rfl⟩
    exact .inl (List.mem_singleton.1 ht)

theorem getElem?_flatMap {ts : List Token} {s : String} (h : (ts.flatMap texts)[0]? = some s) :
    ∃ tail, ts.flatMap texts = s :: tail := by
  cases hflat : ts.flatMap texts with
  | nil =>
    rw [hflat] at h
    cases h
  | cons s' tail =>
    rw [hflat] at h
    cases h
    exact ⟨tail, rfl⟩

/-- The left side of an assignment that the policy admits. -/
structure LeftSide (ts : List Token) (value : List String) : Prop where
  left : ∃ name assigned ts', UserName name ∧
    (assigned = [.symbol '='] ∨ assigned = [.symbol ':', .symbol '=']) ∧
    ts = .symbol '@' :: name ++ assigned ++ ts' ∧ value = ts'.flatMap texts ∧
    assignments 0 [] ts = assignments 0 (.symbol '@' :: name ++ assigned) ts'

theorem leftSide_of_checks {ts : List Token} (hts : ∀ t ∈ ts, Plain t)
    (hat : (ts.flatMap texts)[0]? = some "@")
    (hname : (ts.flatMap texts)[1]?.any asciiUserName = true)
    (hequals : (if (ts.flatMap texts)[2]? = some ":" then (ts.flatMap texts).drop 3
      else (ts.flatMap texts).drop 2)[0]? = some "=") :
    LeftSide ts ((if (ts.flatMap texts)[2]? = some ":" then (ts.flatMap texts).drop 3
      else (ts.flatMap texts).drop 2).drop 1) := by
  obtain ⟨tail, htail⟩ := getElem?_flatMap hat
  obtain ⟨ts1, rfl, rfl⟩ := first_text hts (c := '@') (by decide) htail
  have hts1 : ∀ t ∈ ts1, Plain t := fun t ht => hts t (List.mem_cons_of_mem _ ht)
  rw [htail] at hname hequals ⊢
  simp only [List.getElem?_cons_succ, List.drop_succ_cons] at hname hequals ⊢
  cases ts1 with
  | nil => cases hname
  | cons t ts2 =>
    have ht := hts1 t List.mem_cons_self
    have hts2 : ∀ t ∈ ts2, Plain t := fun t ht => hts1 t (List.mem_cons_of_mem _ ht)
    cases htexts : texts t with
    | nil => exact absurd htexts (texts_ne_nil ht)
    | cons name more =>
      rw [List.flatMap_cons, htexts] at hname hequals ⊢
      rcases userName_of_text ht htexts hname with ⟨text, s, ss, rfl, rfl⟩ | ⟨rfl, huser, hkind⟩
      · -- the rest of a word that is not ASCII stands where the sign should
        have hwordy := wordy_texts ht.1 s (by rw [htexts]; simp)
        have hcolon : s ≠ ":" := by
          rintro rfl
          exact not_wordy_punctuation (c := ':') (by decide) hwordy
        have hsign : s ≠ "=" := by
          rintro rfl
          exact not_wordy_punctuation (c := '=') (by decide) hwordy
        simp [hcolon, hsign] at hequals
      · have hcomma : t ≠ .symbol ',' := by
          rcases hkind with rfl | ⟨text, rfl⟩ | ⟨quote, raw, rfl⟩
          all_goals exact fun h => (by cases h)
        have hdepth : depthAfter 0 t = 0 := by
          rcases hkind with rfl | ⟨text, rfl⟩ | ⟨quote, raw, rfl⟩
          all_goals rfl
        have hname : assignments 0 [] (.symbol '@' :: t :: ts2) =
            assignments 0 [.symbol '@', t] ts2 := by
          rw [assignments_cons (by simp), assignments_cons fun h => hcomma h.1]
          show assignments (depthAfter 0 t) _ _ = _
          rw [hdepth]
          rfl
        simp only [List.singleton_append, List.getElem?_cons_succ, List.drop_succ_cons,
          List.drop_zero] at hequals ⊢
        by_cases hcolon : (ts2.flatMap texts)[0]? = some ":"
        · rw [if_pos hcolon] at hequals ⊢
          obtain ⟨tail, htail⟩ := getElem?_flatMap hcolon
          obtain ⟨ts3, rfl, rfl⟩ := first_text hts2 (c := ':') (by decide) htail
          rw [htail] at hequals ⊢
          simp only [List.drop_succ_cons, List.drop_zero] at hequals ⊢
          obtain ⟨tail, htail⟩ := getElem?_flatMap hequals
          obtain ⟨ts4, rfl, rfl⟩ := first_text
            (fun t ht => hts2 t (List.mem_cons_of_mem _ ht)) (c := '=') (by decide) htail
          refine ⟨[t], _, ts4, huser, .inr rfl, rfl, ?_, ?_⟩
          · rw [htail]
            rfl
          · rw [hname, assignments_cons (by simp), assignments_cons (by simp)]
            rfl
        · rw [if_neg hcolon] at hequals ⊢
          obtain ⟨tail, htail⟩ := getElem?_flatMap hequals
          obtain ⟨ts3, rfl, rfl⟩ := first_text hts2 (c := '=') (by decide) htail
          refine ⟨[t], _, ts3, huser, .inl rfl, rfl, ?_, ?_⟩
          · rw [htail]
            rfl
          · rw [hname, assignments_cons (by simp)]
            rfl

/-- **What the policy lets SET assign are user variables.** -/
theorem assignsUserVariables (fuel : Nat) {ts : List Token} (hts : ∀ t ∈ ts, Plain t)
    (h : assignmentsWithin fuel (ts.flatMap texts) = .ok ()) :
    ∀ segment ∈ assignments 0 [] ts, AssignsUserVariable segment := by
  induction fuel generalizing ts with
  | zero => cases h
  | succ fuel ih =>
    rw [assignmentsWithin] at h
    simp only [bind_eq_ok, failIf_eq_ok, not_or, Bool.not_eq_false, Decidable.not_not, ne_eq] at h
    obtain ⟨-, ⟨hat, hname⟩, -, hequals, ⟨depth, rest⟩, hvalue, -, -, h⟩ := h
    obtain ⟨name, assigned, ts', huser, hassigned, rfl, hvalueTexts, hsegments⟩ :=
      (leftSide_of_checks hts hat hname hequals).left
    have hts' : ∀ t ∈ ts', Plain t := fun t ht => hts t (List.mem_append_right _ ht)
    rw [hvalueTexts] at hvalue
    rw [hsegments]
    have hfirst : ∀ value, AssignsUserVariable (.symbol '@' :: name ++ assigned ++ value) :=
      fun value => ⟨name, assigned, value, huser, hassigned, rfl⟩
    rcases valueEnd_texts hts' 0 (.symbol '@' :: name ++ assigned) hvalue with
      ⟨-, hlast⟩ | ⟨value, ts'', rfl, rfl, hmore⟩
    · rw [hlast]
      intro segment hsegment
      cases List.mem_singleton.1 hsegment
      exact hfirst ts'
    · rw [hmore]
      have hrest : ∀ t ∈ ts'', Plain t :=
        fun t ht => hts' t (List.mem_append_right _ (List.mem_cons_of_mem _ ht))
      intro segment hsegment
      rcases List.mem_cons.1 hsegment with rfl | hsegment
      · exact hfirst value
      · exact ih hrest h segment hsegment

/-! ## The policy -/

section Policy

variable {executable : List Char → Except LexError (List Token × Nat)}

theorem plain_of_statements {tokens statement : List Token} (hlexed : ∀ t ∈ tokens, Lexed t)
    (h : statement ∈ MysqlLexer.statements tokens) : ∀ t ∈ statement, Plain t := by
  intro t ht
  rcases mem_splitAt h ht with hnil | ⟨hmem, hkept⟩
  · cases hnil
  · exact ⟨hlexed t hmem, by simpa using hkept⟩

/-- The statements of the policy are those of the server. -/
theorem statements_texts {tokens : List Token} (hlexed : ∀ t ∈ tokens, Lexed t) :
    (splitAt isSemicolon [] (tokens.flatMap render)).map (·.filterMap Lexeme.text?) =
      (MysqlLexer.statements tokens).map (·.flatMap texts) := by
  have hseparator : ∀ t, Lexed t → decide (t = Token.symbol ';') = true →
      ∃ lexeme, render t = [lexeme] ∧ isSemicolon lexeme = true := by
    intro t _ ht
    rw [decide_eq_true_eq] at ht
    subst ht
    exact ⟨.semicolon, rfl, rfl⟩
  have htoken : ∀ t, Lexed t → decide (t = Token.symbol ';') = false →
      render t ≠ [] ∧ ∀ lexeme ∈ render t, isSemicolon lexeme = false := by
    intro t ht hne
    rw [decide_eq_false_iff_not] at hne
    refine ⟨fun hnil => texts_ne_nil ⟨ht, hne⟩ (by unfold texts; rw [hnil]; rfl), ?_⟩
    intro lexeme hmem
    cases t with
    | word text =>
      obtain ⟨s, rfl, -⟩ := (pieces_word ht).wordy lexeme hmem
      rfl
    | quoted quote raw =>
      cases List.mem_singleton.1 hmem
      rfl
    | symbol c =>
      have hc : c ≠ ';' := fun hc => hne (by rw [hc])
      rw [render, if_neg hc] at hmem
      cases List.mem_singleton.1 hmem
      rfl
  have hsplit := @splitAt_flatMap _ _ _ _ _ _ hseparator htoken [] _ (fun t ht => (by cases ht)) hlexed
  rw [List.flatMap_nil] at hsplit
  unfold MysqlLexer.statements
  rw [hsplit, List.map_map]
  refine List.map_congr_left fun statement _ => ?_
  show (statement.flatMap render).filterMap Lexeme.text? = statement.flatMap texts
  rw [List.filterMap_flatMap]
  rfl

theorem isAsciiWord_of_upper {text : List Char} {name : String} (h : upper text = name)
    (hname : name.toList.all MysqlLexer.isAsciiWord = true) :
    text.all MysqlLexer.isAsciiWord = true := by
  have hchars : text.map Char.toUpper = name.toList := by
    rw [← h, upper, String.toList_ofList]
  rw [← hchars, List.all_map] at hname
  rw [← hname]
  exact congrArg _ (funext fun c => (MysqlLexer.isAsciiWord_toUpper c).symm)

theorem confined_of_enforced {statement : List Token} (hplain : ∀ t ∈ statement, Plain t)
    (hverb : ((statement.flatMap texts).dropWhile (· = "(")).headD "" ∈ allowed)
    (hset : (statement.flatMap texts).head? = some "SET" →
      userAssignments (statement.flatMap texts).tail = .ok ()) : Confined statement where
  head := by
    intro text htext hascii
    rw [dropWhile_texts hplain] at hverb
    cases hdrop : statement.dropWhile (· = .symbol '(') with
    | nil =>
      rw [hdrop] at htext
      cases htext
    | cons t ts =>
      rw [hdrop] at htext hverb
      cases htext
      have hmem : Token.word text ∈ statement :=
        (List.dropWhile_suffix _).mem (by rw [hdrop]; exact List.mem_cons_self)
      rw [List.flatMap_cons, texts_ascii (hplain _ hmem).1 hascii] at hverb
      exact hverb
  sets := by
    rintro text ts rfl hupper
    have hlexed := (hplain _ List.mem_cons_self).1
    have hascii := isAsciiWord_of_upper hupper (by decide)
    rw [List.flatMap_cons, texts_ascii hlexed hascii, hupper] at hset
    exact assignsUserVariables _ (fun t ht => hplain t (List.mem_cons_of_mem _ ht)) (hset rfl)

/-- **Where only blank space follows a carriage return in a line comment, an accepted text is one
statement for the server too, and a confined one.** -/
theorem readAsOne_of_clear (executable : List Char → Except LexError (List Token × Nat))
    (sql : List Char) (hclear : ReturnsClear executable sql) :
    enforceMysqlTransactionSql sql = .ok () → ReadAsOne executable sql := by
  intro h
  unfold enforceMysqlTransactionSql at h
  obtain ⟨⟨⟩, hcaller, h⟩ := bind_eq_ok.1 h
  obtain ⟨read, hread, h⟩ := bind_eq_ok.1 h
  obtain ⟨-, -, hverb⟩ := bind_eq_ok.1 h
  rw [failIf_eq_ok, Decidable.not_not] at hverb
  unfold enforceMysqlCallerSql at hcaller
  rw [hread] at hcaller
  unfold statements at hread
  obtain ⟨lexemes, hscan, hread⟩ := bind_eq_ok.1 hread
  obtain ⟨tokens, hlex, rfl, hlexed⟩ := (agrees_of_scan sql lexemes hclear hscan).agrees
  rw [statements_texts hlexed] at hread
  cases hread
  cases hstatements : MysqlLexer.statements tokens with
  | nil =>
    rw [hstatements] at hcaller
    cases hcaller
  | cons statement others =>
    rw [hstatements] at hcaller hverb
    cases others with
    | cons other others => cases hcaller
    | nil =>
      have hplain := plain_of_statements hlexed (hstatements ▸ List.mem_singleton_self statement)
      refine ⟨tokens, statement, hlex, hstatements, confined_of_enforced hplain hverb fun hset => ?_⟩
      obtain ⟨_, ⟨⟩, hone⟩ := bind_eq_ok.1 hcaller
      obtain ⟨⟨⟩, -, hassigned⟩ := bind_eq_ok.1 hone
      rw [if_pos hset] at hassigned
      exact hassigned

end Policy

/-- No version of the server reads anything in an executable comment. -/
def noExecutable (_ : List Char) : Except LexError (List Token × Nat) := .error .unterminated

theorem readAsOne_of_clear_crlf :
    ReadAsOne noExecutable "-- a\r\nSET @x = (1, 2), @\x60y\x60 := 'COMMIT'".toList :=
  readAsOne_of_clear noExecutable _ (by decide +kernel) (by decide +kernel)

/-- A line comment that hides, behind a carriage return, what makes a literal of a COMMIT. -/
def hiddenCommit : List Char := "#\rSELECT '\nCOMMIT -- '".toList

theorem hiddenCommit_accepted :
    enforceMysqlTransactionSql hiddenCommit = .ok () ∧ ¬ ReadAsOne noExecutable hiddenCommit := by
  refine ⟨by decide +kernel, ?_⟩
  rintro ⟨tokens, statement, hlex, hstatements, hconfined⟩
  have hread : MysqlLexer.lex noExecutable hiddenCommit = .ok [.word "COMMIT".toList] := by
    decide +kernel
  cases hread.symm.trans hlex
  cases hstatements
  exact absurd (hconfined.head "COMMIT".toList rfl (by decide +kernel)) (by decide +kernel)

end Plenora.Core.MysqlCallerPolicy
