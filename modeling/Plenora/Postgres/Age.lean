import Plenora.Core.Graph
import Plenora.Lib.PostgresLexer

/-!
# Cypher inside SQL

`buildCypherSql` puts the Cypher text between two copies of a dollar delimiter that does not
occur in it.  PostgreSQL reads back exactly that text, in one statement, unless the text ends
with the delimiter short of its last `$`:

    s.validate = .ok () → ∃ sql delimiter, buildCypherSql s = .ok sql ∧ …
      (ReadsAs sql delimiter s.cypher ↔ ¬ s.cypher ends with …)        (buildCypherSql_reads_iff)
-/

namespace Plenora.Postgres.Age

open Plenora.Lib Plenora.Lib.PostgresLexer Plenora.Core Plenora.Core.Graph

/-! ## The text of a statement -/

def delimiterCandidate (index : Nat) : String :=
  if index = 0 then "$plenora_age$" else "$plenora_age_" ++ toString index ++ "$"

/-- The first of `count` candidates from `index` on that the text does not contain. -/
def dollarDelimiterFrom (cypher : String) : Nat → Nat → Option String
  | 0, _ => none
  | count + 1, index =>
    if ¬ (delimiterCandidate index).toList <:+: cypher.toList then some (delimiterCandidate index)
    else dollarDelimiterFrom cypher count (index + 1)

def dollarDelimiter (cypher : String) : Result String :=
  okOr (dollarDelimiterFrom cypher (maxCypherBytes + 1) 0)
    (.invalidPlan "impossibile delimitare in sicurezza la query Cypher")

def quoteIdentifier (value : String) : String := "\"" ++ value ++ "\""

def outputColumn (column : String) : String :=
  "ag_catalog.agtype_out(q." ++ quoteIdentifier column ++ ")::pg_catalog.text AS " ++
    quoteIdentifier column

def recordColumn (column : String) : String := quoteIdentifier column ++ " ag_catalog.agtype"

/-- The statement around a delimiter. -/
def cypherSql (statement : GraphStatement) (delimiter : String) : String :=
  let parameters := if statement.params.entries = [] then "" else ", $1"
  "SELECT " ++ ", ".intercalate (statement.columns.map outputColumn) ++
    " FROM ag_catalog.cypher('" ++ statement.graph ++ "', " ++ delimiter ++ statement.cypher ++
    delimiter ++ parameters ++ ") AS q(" ++
    ", ".intercalate (statement.columns.map recordColumn) ++ ") LIMIT " ++
    toString (statement.maxRows + 1)

def buildCypherSql (statement : GraphStatement) : Result String := do
  statement.validate
  let delimiter ← dollarDelimiter statement.cypher
  .ok (cypherSql statement delimiter)

/-! ## The delimiter -/

def delimiterTag (index : Nat) : List Char :=
  "plenora_age".toList ++ if index = 0 then [] else '_' :: Nat.toDigits 10 index

theorem delimiterCandidate_toList (index : Nat) :
    (delimiterCandidate index).toList = '$' :: delimiterTag index ++ ['$'] := by
  unfold delimiterCandidate delimiterTag
  split
  next h => simp
  next h => simp [String.toList_append]

theorem isTagChar_delimiterTag (index : Nat) : ∀ c ∈ delimiterTag index, isTagChar c := by
  intro c hc
  unfold delimiterTag at hc
  rw [List.mem_append] at hc
  rcases hc with hc | hc
  · have hall : "plenora_age".toList.all isTagChar = true := by rfl
    exact List.all_eq_true.1 hall c hc
  · split at hc
    next => contradiction
    next =>
      rcases List.mem_cons.1 hc with rfl | hc
      · decide
      · have := Nat.isDigit_of_mem_toDigits (by decide) (by decide) hc
        simp [isTagChar, this]

theorem dollar_not_mem_delimiterTag (index : Nat) : '$' ∉ delimiterTag index := by
  intro h
  exact absurd (isTagChar_delimiterTag index _ h) (by decide)

theorem delimiterTag_inj {i j : Nat} (h : delimiterTag i = delimiterTag j) : i = j := by
  unfold delimiterTag at h
  rw [List.append_cancel_left_eq] at h
  split at h <;> split at h
  next hi hj => omega
  next => contradiction
  next => contradiction
  next =>
    have h := congrArg (Nat.ofDigitChars 10 · 0) (List.cons.inj h).2
    simpa [Nat.ofDigitChars_ten_toDigits] using h

/-- The candidate is the first one that the text does not contain. -/
def FirstFree (cypher : String) (i : Nat) : Prop :=
  ¬ (delimiterCandidate i).toList <:+: cypher.toList ∧
    ∀ j < i, (delimiterCandidate j).toList <:+: cypher.toList

theorem dollarDelimiterFrom_spec {cypher : String} :
    ∀ {count index delimiter}, dollarDelimiterFrom cypher count index = some delimiter →
      (∀ j < index, (delimiterCandidate j).toList <:+: cypher.toList) →
      ∃ i, delimiter = delimiterCandidate i ∧ FirstFree cypher i := by
  intro count
  induction count with
  | zero =>
    intro index delimiter h
    contradiction
  | succ count ih =>
    intro index delimiter h hbefore
    unfold dollarDelimiterFrom at h
    split at h
    next hfree =>
      cases h
      exact ⟨index, rfl, hfree, hbefore⟩
    next hin =>
      refine ih h fun j hj => ?_
      rcases Nat.lt_succ_iff_lt_or_eq.1 hj with hj | rfl
      · exact hbefore j hj
      · exact not_not.1 hin

theorem dollarDelimiterFrom_none {cypher : String} :
    ∀ {count index}, dollarDelimiterFrom cypher count index = none →
      ∀ i < count, (delimiterCandidate (index + i)).toList <:+: cypher.toList := by
  intro count
  induction count with
  | zero =>
    intro index _ i hi
    omega
  | succ count ih =>
    intro index h i hi
    unfold dollarDelimiterFrom at h
    split at h
    next => contradiction
    next hin =>
      rw [not_not] at hin
      cases i with
      | zero => exact hin
      | succ i =>
        have := ih h i (by omega)
        rwa [Nat.add_right_comm, Nat.add_assoc] at this

/-- Two delimiters at one place are one. -/
theorem delimiter_prefix_inj {i j : Nat} {l r : List Char}
    (h : '$' :: delimiterTag i ++ ['$'] ++ l = '$' :: delimiterTag j ++ ['$'] ++ r) : i = j := by
  apply delimiterTag_inj
  have hi := dollar_not_mem_delimiterTag i
  have hj := dollar_not_mem_delimiterTag j
  generalize delimiterTag i = a at h hi
  generalize delimiterTag j = b at h hj
  have htake {t : List Char} (ht : '$' ∉ t) (s : List Char) :
      (t ++ '$' :: s).takeWhile (· ≠ '$') = t := by
    rw [List.takeWhile_append_of_pos]
    · simp
    · intro c hc
      rw [decide_eq_true_eq]
      rintro rfl
      exact ht hc
  have htail : a ++ '$' :: l = b ++ '$' :: r := by simpa using h
  rw [← htake hi l, htail, htake hj]

theorem length_toList_le (s : String) : s.toList.length ≤ s.utf8ByteSize := by
  rw [← String.ofList_toList (s := s)]
  generalize s.toList = l
  induction l with
  | nil => simp
  | cons c l ih =>
    have hsplit : String.ofList (c :: l) = String.singleton c ++ String.ofList l := by
      rw [String.singleton_eq_ofList, ← String.ofList_append]
      rfl
    have hpos := Char.utf8Size_pos c
    rw [hsplit, String.utf8ByteSize_append, String.utf8ByteSize_singleton]
    simp only [String.toList_append, String.toList_ofList, String.toList_singleton,
      List.length_append, List.length_cons, List.length_nil] at ih ⊢
    omega

/-- **A delimiter is found**: the candidates are more than the places of the text. -/
theorem dollarDelimiter_spec {cypher : String} (h : cypher.utf8ByteSize ≤ maxCypherBytes) :
    ∃ i, dollarDelimiter cypher = .ok (delimiterCandidate i) ∧ FirstFree cypher i := by
  cases hd : dollarDelimiterFrom cypher (maxCypherBytes + 1) 0 with
  | some delimiter =>
    obtain ⟨i, rfl, hfree⟩ :=
      dollarDelimiterFrom_spec hd fun j hj => absurd hj (Nat.not_lt_zero j)
    exact ⟨i, by rw [dollarDelimiter, hd, okOr_some], hfree⟩
  | none =>
    exfalso
    have hall := dollarDelimiterFrom_none hd
    simp only [Nat.zero_add, delimiterCandidate_toList] at hall
    -- where each candidate occurs
    have hplace (i : Fin (maxCypherBytes + 1)) : ∃ k : Fin cypher.toList.length, ∃ r,
        cypher.toList.drop k = '$' :: delimiterTag i ++ ['$'] ++ r := by
      obtain ⟨p, r, hp⟩ := hall i i.isLt
      refine ⟨⟨p.length, ?_⟩, r, ?_⟩
      · rw [← hp]
        simp
      · show cypher.toList.drop p.length = _
        rw [← hp, List.append_assoc, List.drop_left]
    choose place rest hrest using hplace
    have hinj : Function.Injective place := by
      intro i j hij
      have hi := hrest i
      rw [hij, hrest j] at hi
      exact Fin.ext (delimiter_prefix_inj hi).symm
    have hcard := Fintype.card_le_of_injective place hinj
    rw [Fintype.card_fin, Fintype.card_fin] at hcard
    have := length_toList_le cypher
    omega

/-! ## Reading the statement back -/

/-- Neither a dollar-quoted literal nor the end of a statement. -/
def isQuiet : Token → Bool
  | .dollar _ _ => false
  | .symbol c => c ≠ ';'
  | _ => true

/-- One statement, whose only dollar-quoted literal has this delimiter and content. -/
def ReadsAs (sql delimiter content : String) : Prop :=
  ∃ before after, lex sql.toList =
      some (before ++ .dollar delimiter.toList content.toList :: after) ∧
    before.all isQuiet ∧ after.all isQuiet

/-- Quiet tokens between two texts. -/
def QuietRun (l r : List Char) : Prop := ∃ tokens, Run l tokens r ∧ tokens.all isQuiet

theorem QuietRun.refl (l : List Char) : QuietRun l l := ⟨[], .refl l, rfl⟩

theorem QuietRun.step {l r r' : List Char} {token : Option Token} (h : step l = some (token, r))
    (hq : token.toList.all isQuiet) (run : QuietRun r r') : QuietRun l r' := by
  obtain ⟨tokens, hr, ht⟩ := run
  exact ⟨_, .step h hr, by rw [List.all_append, hq, ht]; rfl⟩

theorem QuietRun.trans {l r r' : List Char} (h : QuietRun l r) (h' : QuietRun r r') :
    QuietRun l r' := by
  obtain ⟨ts, hr, ht⟩ := h
  obtain ⟨us, hr', hu⟩ := h'
  exact ⟨_, hr.trans hr', by rw [List.all_append, ht, hu]; rfl⟩

theorem quotedBody_append {quote : Char} {rest : List Char} (hrest : rest.head? ≠ some quote) :
    ∀ {body : List Char}, quote ∉ body →
      quotedBody quote (body ++ quote :: rest) = some (body, rest) := by
  intro body
  induction body with
  | nil =>
    intro _
    cases rest with
    | nil => simp [quotedBody]
    | cons c rest =>
      have : c ≠ quote := by simpa using hrest
      simp [quotedBody, this]
  | cons c body ih =>
    intro h
    rw [List.mem_cons, not_or] at h
    have hc : c ≠ quote := fun hc => h.1 hc.symm
    rw [List.cons_append, quotedBody.eq_def]
    dsimp only
    rw [if_pos hc, ih h.2]
    rfl

theorem not_mem_of_isIdentifier {name : List Char} (h : isIdentifier name) {c : Char}
    (hc : (c.isAlpha || c.isDigit || c = '_') = false) : c ∉ name := by
  intro hmem
  cases name with
  | nil => contradiction
  | cons first rest =>
    unfold isIdentifier Graph.isAsciiAlphanumeric at h
    rw [Bool.and_eq_true, List.all_eq_true] at h
    rcases List.mem_cons.1 hmem with rfl | hmem
    · have := h.1
      simp_all
    · have := h.2 _ hmem
      rw [this] at hc
      contradiction

/-- A character that ends a word and does not double a quote. -/
def Closes (rest : List Char) : Prop := ∃ c r, rest = c :: r ∧ c ∈ [' ', ',', ')']

theorem quietRun_identifier {name : List Char} (h : isIdentifier name) {rest : List Char}
    (hrest : rest.head? ≠ some '"') : QuietRun ('"' :: (name ++ '"' :: rest)) rest := by
  have hstep : step ('"' :: (name ++ '"' :: rest)) = some (some (.quotedIdentifier name), rest) := by
    show literal .quotedIdentifier (quotedBody '"' (name ++ '"' :: rest)) = _
    rw [quotedBody_append hrest (not_mem_of_isIdentifier h (by decide))]
    rfl
  exact .step hstep rfl (.refl _)

theorem Closes.head_ne {rest : List Char} (h : Closes rest) : rest.head? ≠ some '"' := by
  obtain ⟨c, r, rfl, hc⟩ := h
  rw [List.head?_cons, ne_eq, Option.some.injEq]
  rintro rfl
  revert hc
  decide

theorem quoteIdentifier_toList (value : String) (rest : List Char) :
    (quoteIdentifier value).toList ++ rest = '"' :: (value.toList ++ '"' :: rest) := by
  simp [quoteIdentifier, String.toList_append]

theorem quietRun_outputColumn {column : String} (h : isIdentifier column.toList)
    {rest : List Char} (hrest : Closes rest) :
    QuietRun ((outputColumn column).toList ++ rest) rest := by
  unfold outputColumn
  simp only [String.toList_append, List.append_assoc]
  -- function, column, cast, alias
  refine QuietRun.trans (r := (quoteIdentifier column).toList ++ (")::pg_catalog.text AS ".toList ++
    ((quoteIdentifier column).toList ++ rest))) ?_ ?_
  · exact .step rfl rfl (.step rfl rfl (.step rfl rfl (.step rfl rfl (.step rfl rfl
      (.step rfl rfl (.refl _))))))
  · rw [quoteIdentifier_toList]
    refine (quietRun_identifier h (by simp)).trans ?_
    refine QuietRun.trans (r := (quoteIdentifier column).toList ++ rest) ?_ ?_
    · exact .step rfl rfl (.step rfl rfl (.step rfl rfl (.step rfl rfl (.step rfl rfl
        (.step rfl rfl (.step rfl rfl (.step rfl rfl (.step rfl rfl (.refl _)))))))))
    · rw [quoteIdentifier_toList]
      exact quietRun_identifier h hrest.head_ne

theorem quietRun_recordColumn {column : String} (h : isIdentifier column.toList)
    {rest : List Char} (hrest : Closes rest) :
    QuietRun ((recordColumn column).toList ++ rest) rest := by
  unfold recordColumn
  simp only [String.toList_append, List.append_assoc]
  rw [quoteIdentifier_toList]
  refine (quietRun_identifier h (by simp)).trans ?_
  obtain ⟨c, r, rfl, hc⟩ := hrest
  simp only [List.mem_cons, List.not_mem_nil, or_false] at hc
  rcases hc with rfl | rfl | rfl <;>
    exact .step rfl rfl (.step rfl rfl (.step rfl rfl (.step rfl rfl (.refl _))))

/-- A list of columns, each read quietly. -/
theorem quietRun_joined {f : String → String}
    (hf : ∀ {column : String}, isIdentifier column.toList → ∀ {rest}, Closes rest →
      QuietRun ((f column).toList ++ rest) rest) {rest : List Char} (hrest : Closes rest) :
    ∀ {columns : List String}, columns ≠ [] →
      (∀ column ∈ columns, isIdentifier column.toList) →
      QuietRun ((", ".intercalate (columns.map f)).toList ++ rest) rest := by
  intro columns
  induction columns with
  | nil =>
    intro h
    contradiction
  | cons column columns ih =>
    intro _ hall
    have hcolumn := hall column (by simp)
    cases columns with
    | nil =>
      rw [List.map_cons, List.map_nil, String.intercalate_singleton]
      exact hf hcolumn hrest
    | cons next columns =>
      rw [List.map_cons, List.map_cons, String.intercalate_cons_cons]
      simp only [String.toList_append, List.append_assoc]
      refine (hf hcolumn ⟨',', _, rfl, by simp⟩).trans ?_
      refine .step rfl rfl (.step rfl rfl ?_)
      exact ih (by simp) fun c hc => hall c (by simp [hc])

/-- What follows the closing delimiter. -/
def afterCypher (statement : GraphStatement) : List Char :=
  (if statement.params.entries = [] then "" else ", $1").toList ++ (") AS q(".toList ++
    ((", ".intercalate (statement.columns.map recordColumn)).toList ++ (") LIMIT ".toList ++
      (toString (statement.maxRows + 1)).toList)))

/-- Up to the opening delimiter. -/
theorem quietRun_before {statement : GraphStatement} (h : statement.Valid) (rest : List Char) :
    QuietRun ("SELECT ".toList ++ ((", ".intercalate (statement.columns.map outputColumn)).toList ++
      (" FROM ag_catalog.cypher('".toList ++ (statement.graph.toList ++ ("', ".toList ++ rest)))))
      rest := by
  refine .step rfl rfl (.step rfl rfl ?_)
  refine (quietRun_joined quietRun_outputColumn ⟨' ', _, rfl, by simp⟩ h.columns_ne h.columns).trans
    ?_
  refine QuietRun.trans (r := '\'' :: (statement.graph.toList ++ ("', ".toList ++ rest))) ?_ ?_
  · exact .step rfl rfl (.step rfl rfl (.step rfl rfl (.step rfl rfl (.step rfl rfl (.step rfl rfl
      (.step rfl rfl (.refl _)))))))
  · have hstep : step ('\'' :: (statement.graph.toList ++ '\'' :: ',' :: ' ' :: rest)) =
        some (some (.string statement.graph.toList), ',' :: ' ' :: rest) := by
      show literal .string (quotedBody '\'' _) = _
      rw [quotedBody_append (by simp) (not_mem_of_isIdentifier h.graph (by decide))]
      rfl
    exact .step hstep rfl (.step rfl rfl (.step rfl rfl (.refl _)))

theorem quietRun_number (n : Nat) : QuietRun (toString n).toList [] := by
  have htext : (toString n).toList = Nat.toDigits 10 n := Nat.toList_repr
  have hdigits : ∀ c ∈ Nat.toDigits 10 n, c.isDigit := fun c hc =>
    Nat.isDigit_of_mem_toDigits (by decide) (by decide) hc
  rw [htext]
  cases hd : Nat.toDigits 10 n with
  | nil => exact absurd hd Nat.toDigits_ne_nil
  | cons c rest =>
    rw [hd] at hdigits
    have hc := hdigits c (by simp)
    have hne {d : Char} (h : d.isDigit = false) : c ≠ d := by
      rintro rfl
      rw [hc] at h
      contradiction
    have hrest : ∀ d ∈ rest, isTagChar d = true := by
      intro d hd
      simp [isTagChar, hdigits d (by simp [hd])]
    have hspace : isSpace c = false := by
      simp [isSpace, hne (d := ' ') rfl, hne (d := '\t') rfl, hne (d := '\n') rfl,
        hne (d := '\r') rfl, hne (d := '\x0b') rfl, hne (d := '\x0c') rfl]
    have hdash := hne (d := '-') rfl
    have hslash := hne (d := '/') rfl
    have hstep : step (c :: rest) = some (some (.number (c :: rest)), []) := by
      unfold step
      split
      next h => contradiction
      next h => exact absurd (List.cons.inj h).1 hdash
      next h => exact absurd (List.cons.inj h).1 hslash
      next c' rest' _ _ h =>
        cases h
        rw [if_neg (hne rfl), if_neg (hne rfl), if_neg (hne rfl), hspace, if_neg (by decide),
          if_pos hc, List.takeWhile_eq_self_iff.2 hrest, List.dropWhile_eq_nil_iff.2 hrest]
    exact .step hstep rfl (.refl _)

/-- From the closing delimiter to the end. -/
theorem quietRun_after {statement : GraphStatement} (h : statement.Valid) :
    QuietRun (afterCypher statement) [] := by
  have hrest : QuietRun (") AS q(".toList ++
      ((", ".intercalate (statement.columns.map recordColumn)).toList ++ (") LIMIT ".toList ++
        (toString (statement.maxRows + 1)).toList))) [] := by
    refine .step rfl rfl (.step rfl rfl (.step rfl rfl (.step rfl rfl (.step rfl rfl
      (.step rfl rfl ?_)))))
    refine (quietRun_joined quietRun_recordColumn ⟨')', _, rfl, by simp⟩ h.columns_ne
      h.columns).trans ?_
    exact .step rfl rfl (.step rfl rfl (.step rfl rfl (.step rfl rfl
      (quietRun_number (statement.maxRows + 1)))))
  unfold afterCypher
  split
  next => exact hrest
  next => exact .step rfl rfl (.step rfl rfl (.step rfl rfl hrest))

theorem cypherSql_toList (statement : GraphStatement) (delimiter : String) :
    (cypherSql statement delimiter).toList =
      "SELECT ".toList ++ ((", ".intercalate (statement.columns.map outputColumn)).toList ++
      (" FROM ag_catalog.cypher('".toList ++ (statement.graph.toList ++ ("', ".toList ++
        (delimiter.toList ++ (statement.cypher.toList ++ (delimiter.toList ++
          afterCypher statement))))))) := by
  unfold cypherSql afterCypher
  dsimp only
  generalize (if statement.params.entries = [] then "" else ", $1") = parameters
  generalize toString (statement.maxRows + 1) = rows
  simp only [String.toList_append, List.append_assoc]

/-- The literal that the opening delimiter reads. -/
theorem step_delimiter (i : Nat) (rest : List Char) :
    step ((delimiterCandidate i).toList ++ rest) =
      literal (.dollar (delimiterCandidate i).toList)
        (dollarBody (delimiterCandidate i).toList rest) := by
  have htag := isTagChar_delimiterTag i
  rw [delimiterCandidate_toList]
  have hhead : ∃ t, delimiterTag i = 'p' :: t := ⟨_, rfl⟩
  have htake : (delimiterTag i ++ '$' :: rest).takeWhile isTagChar = delimiterTag i := by
    rw [List.takeWhile_append_of_pos htag]
    simp [isTagChar, isWordStart]
  have hdrop : (delimiterTag i ++ '$' :: rest).dropWhile isTagChar = '$' :: rest := by
    rw [List.dropWhile_append_of_pos htag]
    simp [isTagChar, isWordStart]
  have hopen : dollarOpen (delimiterTag i ++ '$' :: rest) =
      some ('$' :: delimiterTag i ++ ['$'], rest) := by
    unfold dollarOpen
    rw [htake, hdrop]
    obtain ⟨t, ht⟩ := hhead
    rw [ht]
    rfl
  show step ('$' :: (delimiterTag i ++ ['$'] ++ rest)) = _
  rw [List.append_assoc, List.singleton_append]
  show stepDollar (delimiterTag i ++ '$' :: rest) = _
  unfold stepDollar
  rw [hopen, if_neg]
  · obtain ⟨t, ht⟩ := hhead
    rw [ht]
    exact (by decide : ¬ false = true)

theorem dropLast_delimiter (i : Nat) :
    (delimiterCandidate i).toList.dropLast = '$' :: delimiterTag i := by
  rw [delimiterCandidate_toList, List.dropLast_concat]

section Reading

variable {statement : GraphStatement} (h : statement.Valid) {i : Nat}
  (hfree : ¬ (delimiterCandidate i).toList <:+: statement.cypher.toList)

include h hfree

theorem readsAs_of_not_suffix
    (hend : ¬ (delimiterCandidate i).toList.dropLast <:+ statement.cypher.toList) :
    ReadsAs (cypherSql statement (delimiterCandidate i)) (delimiterCandidate i)
      statement.cypher := by
  rw [dropLast_delimiter] at hend
  obtain ⟨before, hrun, hquiet⟩ := quietRun_before h ((delimiterCandidate i).toList ++
    (statement.cypher.toList ++ ((delimiterCandidate i).toList ++ afterCypher statement)))
  obtain ⟨after, hrun', hquiet'⟩ := quietRun_after h
  have hbody := dollarBody_append (dollar_not_mem_delimiterTag i) (afterCypher statement)
    (by rwa [← delimiterCandidate_toList]) hend
  have hstep := step_delimiter i (statement.cypher.toList ++
    ((delimiterCandidate i).toList ++ afterCypher statement))
  rw [← delimiterCandidate_toList] at hbody
  rw [hbody] at hstep
  refine ⟨before, after, ?_, hquiet, hquiet'⟩
  rw [cypherSql_toList, lex_of_run (hrun.trans (.step hstep hrun'))]
  simp [lex, lexWithin]

theorem not_readsAs_of_suffix
    (hend : (delimiterCandidate i).toList.dropLast <:+ statement.cypher.toList) :
    ¬ ReadsAs (cypherSql statement (delimiterCandidate i)) (delimiterCandidate i)
      statement.cypher := by
  rw [dropLast_delimiter] at hend
  obtain ⟨text, htext⟩ := hend
  obtain ⟨before, hrun, hquiet⟩ := quietRun_before h ((delimiterCandidate i).toList ++
    (statement.cypher.toList ++ ((delimiterCandidate i).toList ++ afterCypher statement)))
  have hbody := dollarBody_straddle (dollar_not_mem_delimiterTag i) (afterCypher statement)
    (by rwa [htext, ← delimiterCandidate_toList])
  have hstep := step_delimiter i (statement.cypher.toList ++
    ((delimiterCandidate i).toList ++ afterCypher statement))
  rw [htext, ← delimiterCandidate_toList] at hbody
  rw [hbody] at hstep
  have hlex := lex_of_run (hrun.trans (.step hstep (.refl _)))
  rintro ⟨before', after, hreads, hquiet', -⟩
  rw [cypherSql_toList, hlex, Option.map_eq_some_iff] at hreads
  obtain ⟨tokens, -, htokens⟩ := hreads
  -- the first token that is not quiet, on both sides
  have hfirst {l r : List Token} {d c : List Char} (hl : l.all isQuiet) :
      (l ++ .dollar d c :: r).dropWhile isQuiet = .dollar d c :: r := by
    rw [List.dropWhile_append_of_pos (List.all_eq_true.1 hl)]
    simp [isQuiet]
  have heq := congrArg (List.dropWhile isQuiet) htokens
  simp only [Option.toList_some, List.append_assoc, List.cons_append, List.nil_append] at heq
  rw [hfirst hquiet, hfirst hquiet'] at heq
  have hcontent : text = statement.cypher.toList := by
    have := (List.cons.inj heq).1
    simp only [Token.dollar.injEq] at this
    exact this.2
  have := congrArg List.length htext
  rw [hcontent, List.length_append, List.length_cons] at this
  omega

end Reading

/-- **PostgreSQL reads the Cypher text back, unless it ends with the delimiter short of its
last `$`.** -/
theorem buildCypherSql_reads_iff (statement : GraphStatement)
    (h : statement.validate = .ok ()) :
    ∃ delimiter, (∃ i, delimiter = delimiterCandidate i ∧ FirstFree statement.cypher i) ∧
      dollarDelimiter statement.cypher = .ok delimiter ∧
      buildCypherSql statement = .ok (cypherSql statement delimiter) ∧
      (ReadsAs (cypherSql statement delimiter) delimiter statement.cypher ↔
        ¬ delimiter.toList.dropLast <:+ statement.cypher.toList) := by
  have hvalid := GraphStatement.validate_spec h
  obtain ⟨i, hd, hfirst⟩ := dollarDelimiter_spec hvalid.cypher
  have hfree := hfirst.1
  refine ⟨delimiterCandidate i, ⟨i, rfl, hfirst⟩, hd, ?_, ?_⟩
  · unfold buildCypherSql
    rw [h, hd]
    rfl
  · constructor
    · intro hreads hend
      exact not_readsAs_of_suffix hvalid hfree hend hreads
    · exact readsAs_of_not_suffix hvalid hfree

theorem buildCypherSql_reads_iff_return_one :
    ∃ delimiter, (∃ i, delimiter = delimiterCandidate i ∧ FirstFree "RETURN 1" i) ∧
      dollarDelimiter "RETURN 1" = .ok delimiter ∧
      buildCypherSql ⟨"social", "RETURN 1", ["v"], ∅, 10⟩ =
        .ok (cypherSql ⟨"social", "RETURN 1", ["v"], ∅, 10⟩ delimiter) ∧
      (ReadsAs (cypherSql ⟨"social", "RETURN 1", ["v"], ∅, 10⟩ delimiter) delimiter "RETURN 1" ↔
        ¬ delimiter.toList.dropLast <:+ "RETURN 1".toList) :=
  buildCypherSql_reads_iff ⟨"social", "RETURN 1", ["v"], ∅, 10⟩ (by rfl)

/-- A trailing comment that ends with the delimiter short of its last `$`. -/
theorem buildCypherSql_straddles :
    ∃ sql delimiter, GraphStatement.validate ⟨"g", "RETURN 1 //$plenora_age", ["v"], ∅, 10⟩ = .ok () ∧
      dollarDelimiter "RETURN 1 //$plenora_age" = .ok delimiter ∧
      buildCypherSql ⟨"g", "RETURN 1 //$plenora_age", ["v"], ∅, 10⟩ = .ok sql ∧
      ¬ ReadsAs sql delimiter "RETURN 1 //$plenora_age" := by
  have hvalid : GraphStatement.validate ⟨"g", "RETURN 1 //$plenora_age", ["v"], ∅, 10⟩ = .ok () := by
    rfl
  have hfree : ¬ (delimiterCandidate 0).toList <:+: "RETURN 1 //$plenora_age".toList := by
    decide
  have hend : (delimiterCandidate 0).toList.dropLast <:+ "RETURN 1 //$plenora_age".toList := by
    decide
  have hdelimiter : dollarDelimiter "RETURN 1 //$plenora_age" = .ok (delimiterCandidate 0) := by
    unfold dollarDelimiter dollarDelimiterFrom
    rw [if_pos hfree, okOr_some]
  refine ⟨_, delimiterCandidate 0, hvalid, hdelimiter, ?_,
    not_readsAs_of_suffix (GraphStatement.validate_spec hvalid) hfree hend⟩
  unfold buildCypherSql
  rw [hvalid, hdelimiter]
  rfl

end Plenora.Postgres.Age
