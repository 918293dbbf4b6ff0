import Plenora.Sdk.GraphQuery

/-!
# What Cypher reads in a compiled query

A query means its nodes with their labels, its conditions, its results and its limit.  Cypher reads
the text of every query made of some parts as what the query means, if and only if the names of
these parts stand between their backticks, the operators are `=` and the parameters have names.

    q.meaning.tokens = q'.meaning.tokens → q.meaning = q'.meaning   (tokens_injective)
    Plain q → lex q.text = some q.meaning.tokens                    (lex_text)
    Unescapable parts ↔ parts.Plain                                 (unescapable_iff)
-/

namespace Plenora.Sdk.GraphQuery

open Plenora.Lib CypherLexer

/-! ## Meaning -/

/-- One `MATCH`, one `WHERE` that is a conjunction, one `RETURN` and a `LIMIT`. -/
structure Meaning where
  nodes : List (Text × Option Text)
  conditions : List (GraphProperty × Text)
  returns : List (Text × Option Text)
  limit : Option Int
  deriving DecidableEq

namespace Meaning

def nodeTokens (node : Text × Option Text) : List Token :=
  [Token.symbol ['('], Token.name node.1] ++
    (match node.2 with
      | none => []
      | some label => [Token.symbol [':'], Token.name label]) ++ [Token.symbol [')']]

/-- A property that equals a parameter. -/
def conditionTokens (c : GraphProperty × Text) : List Token :=
  [.name c.1.alias_, .symbol ['.'], .name c.1.name, .symbol ['='], .parameter c.2]

def returnTokens (r : Text × Option Text) : List Token :=
  .name r.1 ::
    match r.2 with
    | none => []
    | some name => [.symbol ['.'], .name name]

def intTokens : Int → List Token
  | .ofNat n => [.integer n]
  | .negSucc n => [.symbol ['-'], .integer (n + 1)]

def keyword (word : String) : Token := .keyword word.toList

def commas (items : List (List Token)) : List Token := [.symbol [',']].intercalate items

def whereTokens (conditions : List (GraphProperty × Text)) : List Token :=
  if conditions = [] then []
  else keyword "WHERE" :: [keyword "AND"].intercalate (conditions.map conditionTokens)

def limitTokens : Option Int → List Token
  | none => []
  | some k => keyword "LIMIT" :: intTokens k

/-- The sentence that says it. -/
def tokens (m : Meaning) : List Token :=
  keyword "MATCH" :: (commas (m.nodes.map nodeTokens) ++ (whereTokens m.conditions ++
    (keyword "RETURN" :: (commas (m.returns.map returnTokens) ++ limitTokens m.limit))))

end Meaning

open Meaning

def Returned.meaning : Returned → Text × Option Text
  | .node n => (n.alias_, none)
  | .property p => (p.alias_, some p.name)

def GraphCondition.meaning (c : GraphCondition) : GraphProperty × Text := (c.property, c.parameter)

def CypherQuery.meaning (q : CypherQuery) : Meaning where
  nodes := q.nodes.map fun n => (n.alias_, n.label)
  conditions := q.conditions.map GraphCondition.meaning
  returns := q.returns.map Returned.meaning
  limit := q.rowLimit

/-! ## A sentence has one meaning -/

/-- The heads of the clauses. -/
def isClause (t : Token) : Bool :=
  t = keyword "MATCH" || t = keyword "WHERE" || t = keyword "RETURN" || t = keyword "LIMIT"

theorem segment_unique {a a' x x' : List Token} (ha : ∀ t ∈ a, isClause t = false)
    (ha' : ∀ t ∈ a', isClause t = false) (hx : ∀ t ∈ x.head?, isClause t = true)
    (hx' : ∀ t ∈ x'.head?, isClause t = true) (h : a ++ x = a' ++ x') : a = a' ∧ x = x' := by
  have hnil : ∀ {d y y' : List Token}, y = d ++ y' → (∀ t ∈ d, isClause t = false) →
      (∀ t ∈ y.head?, isClause t = true) → d = [] := by
    intro d y y' hy hd hhead
    cases d with
    | nil => rfl
    | cons t d =>
      have htrue := hhead t (by rw [hy]; rfl)
      rw [hd t List.mem_cons_self] at htrue
      cases htrue
  rcases List.append_eq_append_iff.1 h with ⟨d, rfl, hd⟩ | ⟨d, rfl, hd⟩
  · obtain rfl := hnil hd (fun t ht => ha' t (List.mem_append_right _ ht)) hx
    exact ⟨(List.append_nil a).symm, hd⟩
  · obtain rfl := hnil hd (fun t ht => ha t (List.mem_append_right _ ht)) hx'
    exact ⟨List.append_nil a', hd.symm⟩

theorem mem_intercalate {sep t : Token} {items : List (List Token)}
    (h : t ∈ [sep].intercalate items) : t = sep ∨ ∃ item ∈ items, t ∈ item := by
  induction items with
  | nil => cases h
  | cons item items ih =>
    cases items with
    | nil =>
      rw [List.intercalate_singleton] at h
      exact .inr ⟨item, List.mem_cons_self, h⟩
    | cons other items =>
      rw [List.intercalate_cons_cons] at h
      simp only [List.mem_append, List.mem_singleton] at h
      rcases h with (h | h) | h
      · exact .inr ⟨item, List.mem_cons_self, h⟩
      · exact .inl h
      · rcases ih h with h | ⟨i, hi, ht⟩
        · exact .inl h
        · exact .inr ⟨i, List.mem_cons_of_mem _ hi, ht⟩

/-- Items that do not hold the mark between them are told apart. -/
theorem items_unique {ι : Type} {f : ι → List Token} {sep : Token} (hf : Function.Injective f)
    (hsep : ∀ i, sep ∉ f i) {items items' : List ι} (hne : items ≠ []) (hne' : items' ≠ [])
    (h : [sep].intercalate (items.map f) = [sep].intercalate (items'.map f)) : items = items' := by
  have hsplit : ∀ {l : List ι}, l ≠ [] → ([sep].intercalate (l.map f)).splitOn sep = l.map f := by
    intro l hl
    refine List.splitOn_intercalate sep ?_ (by simpa using hl)
    intro item hitem
    obtain ⟨i, -, rfl⟩ := List.mem_map.1 hitem
    exact hsep i
  have hmap := (hsplit hne).symm.trans ((congrArg (List.splitOn sep) h).trans (hsplit hne'))
  exact hf.list_map hmap

theorem nodeTokens_injective : Function.Injective nodeTokens := by
  rintro ⟨a, l⟩ ⟨a', l'⟩ h
  cases l <;> cases l' <;> simp_all [nodeTokens]

theorem conditionTokens_injective : Function.Injective conditionTokens := by
  rintro ⟨⟨a, n⟩, p⟩ ⟨⟨a', n'⟩, p'⟩ h
  simp only [conditionTokens, List.cons.injEq, Token.name.injEq, Token.parameter.injEq] at h
  obtain ⟨rfl, -, rfl, -, rfl, -⟩ := h
  rfl

theorem returnTokens_injective : Function.Injective returnTokens := by
  rintro ⟨a, n⟩ ⟨a', n'⟩ h
  cases n <;> cases n' <;> simp_all [returnTokens]

theorem limitTokens_injective : Function.Injective limitTokens := by
  intro k k' h
  cases k with
  | none =>
    cases k' with
    | none => rfl
    | some k' => cases h
  | some k =>
    cases k' with
    | none => cases h
    | some k' =>
      have htail := (List.cons.inj h).2
      cases k <;> cases k' <;> simp_all [intTokens]

theorem isClause_commas {ι : Type} {f : ι → List Token} (hf : ∀ i, ∀ t ∈ f i, isClause t = false)
    {sep : Token} (hsep : isClause sep = false) (items : List ι) :
    ∀ t ∈ [sep].intercalate (items.map f), isClause t = false := by
  intro t ht
  rcases mem_intercalate ht with rfl | ⟨item, hitem, ht⟩
  · exact hsep
  · obtain ⟨i, -, rfl⟩ := List.mem_map.1 hitem
    exact hf i t ht

theorem isClause_nodeTokens (n : Text × Option Text) : ∀ t ∈ nodeTokens n, isClause t = false := by
  obtain ⟨a, l⟩ := n
  cases l <;> simp [nodeTokens, isClause, keyword]

theorem isClause_conditionTokens (c : GraphProperty × Text) :
    ∀ t ∈ conditionTokens c, isClause t = false := by
  simp [conditionTokens, isClause, keyword]

theorem isClause_returnTokens (r : Text × Option Text) :
    ∀ t ∈ returnTokens r, isClause t = false := by
  obtain ⟨a, n⟩ := r
  cases n <;> simp [returnTokens, isClause, keyword]

theorem whereTokens_unique {c c' : List (GraphProperty × Text)} {x x' : List Token}
    (h : whereTokens c ++ keyword "RETURN" :: x = whereTokens c' ++ keyword "RETURN" :: x') :
    c = c' ∧ x = x' := by
  have hand : ∀ c, keyword "AND" ∉ conditionTokens c := by simp [conditionTokens, keyword]
  have hclause := fun c => isClause_conditionTokens c
  have hsep : isClause (keyword "AND") = false := by decide
  unfold whereTokens at h
  split at h <;> split at h
  next hc hc' => exact ⟨hc.trans hc'.symm, by simpa using h⟩
  next => exact absurd (List.cons.inj h).1 (by decide)
  next => exact absurd (List.cons.inj h).1 (by decide)
  next hc hc' =>
    obtain ⟨hitems, hrest⟩ := segment_unique (isClause_commas hclause hsep c)
      (isClause_commas hclause hsep c') (fun t ht => by cases ht; decide)
      (fun t ht => by cases ht; decide) (List.cons.inj h).2
    exact ⟨items_unique conditionTokens_injective hand hc hc' hitems, (List.cons.inj hrest).2⟩

/-- **A sentence has one meaning.** -/
theorem tokens_injective {m m' : Meaning} (hnodes : m.nodes ≠ []) (hnodes' : m'.nodes ≠ [])
    (hreturns : m.returns ≠ []) (hreturns' : m'.returns ≠ []) (h : m.tokens = m'.tokens) :
    m = m' := by
  have hhead : ∀ (c : List (GraphProperty × Text)) (x : List Token),
      ∀ t ∈ (whereTokens c ++ keyword "RETURN" :: x).head?, isClause t = true := by
    intro c x t ht
    unfold whereTokens at ht
    split at ht <;> cases ht <;> decide
  have hlimit : ∀ k, ∀ t ∈ (limitTokens k).head?, isClause t = true := by
    intro k t ht
    cases k with
    | none => cases ht
    | some k => cases ht; decide
  have hcomma : isClause (.symbol [',']) = false := by decide
  obtain ⟨hn, hrest⟩ := segment_unique (isClause_commas isClause_nodeTokens hcomma m.nodes)
    (isClause_commas isClause_nodeTokens hcomma m'.nodes) (hhead _ _) (hhead _ _)
    (List.cons.inj h).2
  obtain ⟨hc, hrest⟩ := whereTokens_unique hrest
  obtain ⟨hr, hl⟩ := segment_unique (isClause_commas isClause_returnTokens hcomma m.returns)
    (isClause_commas isClause_returnTokens hcomma m'.returns) (hlimit _) (hlimit _) hrest
  have hmark : ∀ n, .symbol [','] ∉ nodeTokens n := by
    rintro ⟨a, l⟩
    cases l <;> simp [nodeTokens]
  have hmark' : ∀ r, .symbol [','] ∉ returnTokens r := by
    rintro ⟨a, n⟩
    cases n <;> simp [returnTokens]
  obtain ⟨nodes, conditions, returns, limit⟩ := m
  obtain ⟨nodes', conditions', returns', limit'⟩ := m'
  obtain rfl := items_unique nodeTokens_injective hmark hnodes hnodes' hn
  obtain rfl : conditions = conditions' := hc
  obtain rfl := items_unique returnTokens_injective hmark' hreturns hreturns' hr
  obtain rfl := limitTokens_injective hl
  rfl

/-! ## Reading the parts -/

theorem name_of_identifier {value : Text} (h : isIdentifier value = true) :
    value ≠ [] ∧ '\x60' ∉ value := by
  simp only [isIdentifier, Bool.and_eq_true, decide_eq_true_eq] at h
  refine ⟨h.1.1.1, fun hmem => ?_⟩
  have hall := List.all_eq_true.1 h.2 _ hmem
  revert hall
  decide

theorem lex_identifier {name rest : Text} (hname : name ≠ [] ∧ '\x60' ∉ name) (hrest : Ends rest) :
    lex (cypherIdentifier name ++ rest) = (lex rest).map (.name name :: ·) :=
  lex_quoted hname.1 hname.2 hrest

theorem ends_tick (rest : Text) : ∀ c ∈ [':', ')', '.', ' ', ','], Ends (c :: rest) := by
  have hall : [':', ')', '.', ' ', ','].all (fun c => !isContinued c && !c.isDigit && c ≠ '\x60') =
      true := by decide
  intro c hc
  have := List.all_eq_true.1 hall c hc
  simp only [Bool.and_eq_true, Bool.not_eq_true', decide_eq_true_eq] at this
  exact ends_cons ⟨this.1.1, this.1.2, this.2⟩

theorem lex_patternText (n : GraphNode) (rest : Text) :
    lex (CypherQuery.patternText n ++ rest) =
      (lex rest).map (nodeTokens (n.alias_, n.label) ++ ·) := by
  have ha := name_of_identifier n.alias_valid
  have hopen : ∀ rest, lex ('(' :: rest) = (lex rest).map (.symbol ['('] :: ·) := lex_symbol rfl
  have hclose : ∀ rest, lex (')' :: rest) = (lex rest).map (.symbol [')'] :: ·) := lex_symbol rfl
  have hcolon : ∀ rest, lex (':' :: rest) = (lex rest).map (.symbol [':'] :: ·) := lex_symbol rfl
  cases hl : n.label with
  | none =>
    have htext : CypherQuery.patternText n ++ rest =
        '(' :: (cypherIdentifier n.alias_ ++ ')' :: rest) := by
      simp [CypherQuery.patternText, hl]
    rw [htext, hopen, lex_identifier ha (ends_tick _ _ (by simp)), hclose, Option.map_map,
      Option.map_map]
    rfl
  | some label =>
    have hlabel := name_of_identifier (n.label_valid label (by rw [hl]; rfl))
    have htext : CypherQuery.patternText n ++ rest =
        '(' :: (cypherIdentifier n.alias_ ++ ':' :: (cypherIdentifier label ++ ')' :: rest)) := by
      simp [CypherQuery.patternText, hl]
    rw [htext, hopen, lex_identifier ha (ends_tick _ _ (by simp)), hcolon,
      lex_identifier hlabel (ends_tick _ _ (by simp)), hclose]
    simp only [Option.map_map]
    rfl

/-- The properties whose name stands between its backticks. -/
def PlainProperty (p : GraphProperty) : Prop := p.name ≠ [] ∧ '\x60' ∉ p.name

def PlainCondition (c : GraphCondition) : Prop :=
  PlainProperty c.property ∧ Alone c.operator (.symbol ['=']) ∧ IsParameterName c.parameter

def PlainReturned : Returned → Prop
  | .node _ => True
  | .property p => PlainProperty p

/-- Up to the name of the property. -/
theorem lex_propertyText {p : GraphProperty} (ha : isIdentifier p.alias_ = true) (rest : Text) :
    lex (CypherQuery.propertyText p ++ rest) =
      (lex (cypherIdentifier p.name ++ rest)).map ([.name p.alias_, .symbol ['.']] ++ ·) := by
  have hdot : ∀ rest, lex ('.' :: rest) = (lex rest).map (.symbol ['.'] :: ·) := lex_symbol rfl
  have htext : CypherQuery.propertyText p ++ rest =
      cypherIdentifier p.alias_ ++ '.' :: (cypherIdentifier p.name ++ rest) := by
    simp [CypherQuery.propertyText]
  rw [htext, lex_identifier (name_of_identifier ha) (ends_tick _ _ (by simp)), hdot, Option.map_map]
  rfl

/-- Up to the operator of the condition. -/
theorem lex_conditionText {c : GraphCondition} (ha : isIdentifier c.property.alias_ = true)
    (hp : PlainProperty c.property) (rest : Text) :
    lex (CypherQuery.conditionText c ++ rest) =
      (lex (c.operator ++ ' ' :: '$' :: c.parameter ++ rest)).map
        ([.name c.property.alias_, .symbol ['.'], .name c.property.name] ++ ·) := by
  have htext : CypherQuery.conditionText c ++ rest = CypherQuery.propertyText c.property ++
      ' ' :: (c.operator ++ ' ' :: '$' :: c.parameter ++ rest) := by
    simp [CypherQuery.conditionText]
  rw [htext, lex_propertyText ha, lex_identifier hp (ends_tick _ _ (by simp)),
    lex_space (by decide), Option.map_map]
  rfl

theorem lex_plainCondition {c : GraphCondition} (ha : isIdentifier c.property.alias_ = true)
    (hc : PlainCondition c) {rest : Text} (hrest : Ends rest) :
    lex (CypherQuery.conditionText c ++ rest) = (lex rest).map (conditionTokens c.meaning ++ ·) := by
  have htext : c.operator ++ ' ' :: '$' :: c.parameter ++ rest =
      c.operator ++ ' ' :: ('$' :: c.parameter ++ rest) := by simp
  rw [lex_conditionText ha hc.1, htext, lex_alone hc.2.1, lex_parameter hc.2.2 hrest]
  simp only [Option.map_map]
  rfl

theorem lex_returnText {r : Returned} (ha : isIdentifier r.alias_ = true) (hr : PlainReturned r)
    {rest : Text} (hrest : Ends rest) :
    lex (CypherQuery.returnText r ++ rest) = (lex rest).map (returnTokens r.meaning ++ ·) := by
  cases r with
  | node n => exact lex_identifier (name_of_identifier ha) hrest
  | property p =>
    show lex (CypherQuery.propertyText p ++ rest) = _
    rw [lex_propertyText ha, lex_identifier hr hrest, Option.map_map]
    rfl

/-! ## Reading the clauses -/

theorem lex_keyword {c : Char} {w : Text} (hc : begins c = some ([], .word [c]))
    (hw : w.all isContinued = true) (hword : wordToken (c :: w) = .keyword (c :: w)) (rest : Text) :
    lex (c :: w ++ ' ' :: rest) = (lex rest).map (.keyword (c :: w) :: ·) := by
  rw [lex_word hc (List.all_eq_true.1 hw) (ends_tick _ _ (by simp)), lex_space (by decide), hword]

theorem ends_comma : Ends ", ".toList := by
  show Ends (',' :: [' '])
  exact ends_tick _ _ (by simp)

theorem ends_and : Ends " AND ".toList := by
  show Ends (' ' :: ['A', 'N', 'D', ' '])
  exact ends_tick _ _ (by simp)

theorem lex_comma (rest : Text) :
    lex (", ".toList ++ rest) = (lex rest).map (.symbol [','] :: ·) := by
  have hcomma : ∀ rest, lex (',' :: rest) = (lex rest).map (.symbol [','] :: ·) := lex_symbol rfl
  show lex (',' :: ' ' :: rest) = _
  rw [hcomma, lex_space (by decide)]

theorem lex_and (rest : Text) :
    lex (" AND ".toList ++ rest) = (lex rest).map (keyword "AND" :: ·) := by
  show lex (' ' :: ('A' :: ['N', 'D'] ++ ' ' :: rest)) = _
  rw [lex_space (by decide), lex_keyword (by decide) (by decide) (by decide)]
  rfl

theorem lex_matchText (nodes : List GraphNode) {rest : Text} (hrest : Ends rest) :
    lex (CypherQuery.matchText nodes ++ rest) = (lex rest).map fun l =>
      keyword "MATCH" :: (commas ((nodes.map fun n => (n.alias_, n.label)).map nodeTokens) ++ l) := by
  have htext : CypherQuery.matchText nodes ++ rest = 'M' :: ['A', 'T', 'C', 'H'] ++
      ' ' :: (", ".toList.intercalate (nodes.map CypherQuery.patternText) ++ rest) := by
    unfold CypherQuery.matchText
    simp
  rw [htext, lex_keyword (by decide) (by decide) (by decide),
    lex_intercalate (by decide) ends_comma lex_comma
      (fun n _ rest _ => lex_patternText n rest) hrest, Option.map_map, List.map_map]
  rfl

theorem lex_whereText {conditions : List GraphCondition}
    (h : ∀ c ∈ conditions, isIdentifier c.property.alias_ = true ∧ PlainCondition c) {rest : Text}
    (hrest : Ends rest) :
    lex (CypherQuery.whereText conditions ++ rest) =
      (lex rest).map (whereTokens (conditions.map GraphCondition.meaning) ++ ·) := by
  unfold CypherQuery.whereText whereTokens
  by_cases hnil : conditions = []
  · subst hnil
    exact (Option.map_id' (x := lex rest)).symm
  · have hmap : conditions.map GraphCondition.meaning ≠ [] := by simpa using hnil
    have htext : " WHERE ".toList ++ " AND ".toList.intercalate
        (conditions.map CypherQuery.conditionText) ++ rest = ' ' :: ('W' :: ['H', 'E', 'R', 'E'] ++
          ' ' :: (" AND ".toList.intercalate (conditions.map CypherQuery.conditionText) ++ rest)) :=
      by simp
    rw [if_neg hnil, if_neg hmap, htext, lex_space (by decide),
      lex_keyword (by decide) (by decide) (by decide),
      lex_intercalate (by decide) ends_and lex_and
        (fun c hc rest hrest => lex_plainCondition (h c hc).1 (h c hc).2 hrest) hrest,
      Option.map_map, List.map_map]
    rfl

theorem lex_returnsText {returns : List Returned}
    (h : ∀ r ∈ returns, isIdentifier r.alias_ = true ∧ PlainReturned r) {rest : Text}
    (hrest : Ends rest) :
    lex (CypherQuery.returnsText returns ++ rest) = (lex rest).map fun l =>
      keyword "RETURN" :: (commas ((returns.map Returned.meaning).map returnTokens) ++ l) := by
  have htext : CypherQuery.returnsText returns ++ rest = ' ' :: ('R' :: ['E', 'T', 'U', 'R', 'N'] ++
      ' ' :: (", ".toList.intercalate (returns.map CypherQuery.returnText) ++ rest)) := by
    unfold CypherQuery.returnsText
    simp
  have hitems := lex_intercalate (by decide) ends_comma lex_comma
    (fun r hr rest hrest => lex_returnText (h r hr).1 (h r hr).2 hrest) hrest
  rw [htext, lex_space (by decide), lex_keyword (by decide) (by decide) (by decide), hitems,
    Option.map_map, List.map_map]
  rfl

theorem lex_digits (n : Nat) : lex (Nat.toDigits 10 n) = some [.integer n] := by
  obtain ⟨c, ds, hds⟩ := List.exists_cons_of_ne_nil (Nat.toDigits_ne_nil (n := n) (b := 10))
  have hall := Decimal.allDigits_toDigits n
  rw [hds] at hall
  have hc : begins c = some ([], .integer [c]) := by
    obtain ⟨hlow, hhigh⟩ := Decimal.isDigit_bounds (hall c List.mem_cons_self)
    rw [← Char.ofNat_toNat c]
    generalize c.toNat = n at hlow hhigh ⊢
    interval_cases n <;> decide
  have hlex := lex_integer hc (fun d hd => hall d (List.mem_cons_of_mem c hd)) ends_nil
  rw [List.append_nil, ← hds, Decimal.value_toDigits] at hlex
  exact hlex

theorem lex_limitText (k : Option Int) :
    lex (CypherQuery.limitText k) = some (limitTokens k) := by
  cases k with
  | none => rfl
  | some k =>
    have htext : CypherQuery.limitText (some k) =
        ' ' :: ('L' :: ['I', 'M', 'I', 'T'] ++ ' ' :: CypherQuery.intText k) := rfl
    rw [htext, lex_space (by decide), lex_keyword (by decide) (by decide) (by decide)]
    cases k with
    | ofNat n =>
      rw [show CypherQuery.intText (.ofNat n) = Nat.toDigits 10 n from rfl, lex_digits]
      rfl
    | negSucc n =>
      have hminus : ∀ rest, lex ('-' :: rest) = (lex rest).map (.symbol ['-'] :: ·) := lex_symbol rfl
      rw [show CypherQuery.intText (.negSucc n) = '-' :: Nat.toDigits 10 (n + 1) from rfl, hminus,
        lex_digits]
      rfl

/-! ## Queries assembled from parts -/

/-- The parts that are at hand, the properties of the conditions among them. -/
structure Parts where
  nodes : Set GraphNode
  properties : Set GraphProperty
  conditions : Set GraphCondition
  property_mem : ∀ c ∈ conditions, c.property ∈ properties

namespace Parts

variable (parts : Parts)

def Has : Returned → Prop
  | .node n => n ∈ parts.nodes
  | .property p => p ∈ parts.properties

structure Assembled (q : CypherQuery) : Prop where
  nodes : ∀ n ∈ q.nodes, n ∈ parts.nodes
  conditions : ∀ c ∈ q.conditions, c ∈ parts.conditions
  returns : ∀ r ∈ q.returns, parts.Has r

/-- What is asked of the text of a query: Cypher reads it as the query, and `execute` demands a
value for each parameter in it. -/
structure Faithful (q : CypherQuery) (text : Text) : Prop where
  reads : lex text = some q.meaning.tokens
  demanded : ∀ tokens, lex text = some tokens → ∀ name, .parameter name ∈ tokens →
    ∀ (V : Type) (parameters : List (Text × V)) (maxRows : Nat) (call : CypherCall V),
      q.execute parameters maxRows = .ok call → name ∈ parameters.map Prod.fst

/-- Every query from the parts is faithful, and no two of them share their text. -/
structure Unescapable : Prop where
  faithful : ∀ q, parts.Assembled q → ∀ text names, q.compile = .ok (text, names) → Faithful q text
  distinct : ∀ q q', parts.Assembled q → parts.Assembled q' → ∀ text names names',
    q.compile = .ok (text, names) → q'.compile = .ok (text, names') →
      q.nodes = q'.nodes ∧ q.conditions = q'.conditions ∧ q.returns = q'.returns

/-- No two nodes share their alias, and what refers to a node is plain. -/
structure Plain : Prop where
  nodes : ∀ m ∈ parts.nodes, ∀ n ∈ parts.nodes, m.alias_ = n.alias_ → m = n
  properties : ∀ n ∈ parts.nodes, ∀ p ∈ parts.properties, p.alias_ = n.alias_ → PlainProperty p
  conditions : ∀ n ∈ parts.nodes, ∀ c ∈ parts.conditions, c.property.alias_ = n.alias_ →
    PlainCondition c

end Parts

/-! ## The methods assemble -/

section Assembling

variable {parts : Parts} {q q' : CypherQuery}

theorem assembled_graphQuery {graph : Text} (h : graphQuery graph = .ok q) : parts.Assembled q := by
  unfold graphQuery at h
  split at h
  next => cases h; exact ⟨by simp, by simp, by simp⟩
  next => cases h

theorem assembled_match {nodes : List GraphNode} (hq : parts.Assembled q)
    (hnodes : ∀ n ∈ nodes, n ∈ parts.nodes) (h : q.match_ nodes = .ok q') : parts.Assembled q' := by
  unfold CypherQuery.match_ at h
  split at h
  next => cases h
  dsimp only at h
  split at h
  next => cases h
  cases h
  refine ⟨fun n hn => ?_, hq.conditions, hq.returns⟩
  rcases List.mem_append.1 hn with hn | hn
  · exact hq.nodes n hn
  · exact hnodes n hn

theorem assembled_where {conditions : List GraphCondition} (hq : parts.Assembled q)
    (hconditions : ∀ c ∈ conditions, c ∈ parts.conditions) (h : q.where_ conditions = .ok q') :
    parts.Assembled q' := by
  unfold CypherQuery.where_ at h
  split at h
  next => cases h
  cases h
  refine ⟨hq.nodes, fun c hc => ?_, hq.returns⟩
  rcases List.mem_append.1 hc with hc | hc
  · exact hq.conditions c hc
  · exact hconditions c hc

theorem assembled_returning {values : List Returned} {names : Option (List Text)}
    (hq : parts.Assembled q) (hvalues : ∀ r ∈ values, parts.Has r)
    (h : q.returning values names = .ok q') : parts.Assembled q' := by
  unfold CypherQuery.returning at h
  split at h
  next => cases h
  dsimp only at h
  split at h
  next => cases h
  cases hforM : (CypherQuery.resolvedNames values names).forM fun name =>
      discard (identifier name "colonna risultato graph") with
  | error e =>
    rw [hforM] at h
    cases h
  | ok u =>
    rw [hforM] at h
    replace h : (if _ then _ else _) = _ := h
    split at h
    next => cases h
    cases h
    exact ⟨hq.nodes, hq.conditions, hvalues⟩

theorem assembled_limit {value : Int} (hq : parts.Assembled q) (h : q.limit value = .ok q') :
    parts.Assembled q' := by
  unfold CypherQuery.limit at h
  split at h
  next => cases h
  cases h
  exact ⟨hq.nodes, hq.conditions, hq.returns⟩

end Assembling

/-! ## Plain parts -/

/-- What is needed of a query to be read as what it means. -/
structure PlainQuery (q : CypherQuery) : Prop where
  conditions : ∀ c ∈ q.conditions, isIdentifier c.property.alias_ = true ∧ PlainCondition c
  returns : ∀ r ∈ q.returns, isIdentifier r.alias_ = true ∧ PlainReturned r

theorem ends_clause {rest : Text} (h : rest = [] ∨ ∃ tail, rest = ' ' :: tail) : Ends rest := by
  rcases h with rfl | ⟨tail, rfl⟩
  · exact ends_nil
  · exact ends_tick _ _ (by simp)

/-- **Plain queries are read as what they mean.** -/
theorem lex_text {q : CypherQuery} (h : PlainQuery q) : lex q.text = some q.meaning.tokens := by
  have hlimit : Ends (CypherQuery.limitText q.rowLimit) := by
    refine ends_clause ?_
    cases q.rowLimit with
    | none => exact .inl rfl
    | some k => exact .inr ⟨_, rfl⟩
  have hreturns : ∀ rest, Ends (CypherQuery.returnsText q.returns ++ rest) :=
    fun rest => ends_clause (.inr ⟨_, rfl⟩)
  have hwhere : ∀ rest, Ends (CypherQuery.whereText q.conditions ++
      (CypherQuery.returnsText q.returns ++ rest)) := by
    intro rest
    unfold CypherQuery.whereText
    split
    · exact hreturns rest
    · exact ends_clause (.inr ⟨_, rfl⟩)
  rw [CypherQuery.text, List.append_assoc, List.append_assoc, lex_matchText q.nodes (hwhere _),
    lex_whereText h.conditions (hreturns _), lex_returnsText h.returns hlimit, lex_limitText]
  rfl

theorem plainQuery {parts : Parts} (h : parts.Plain) {q : CypherQuery} (hq : parts.Assembled q)
    {r : Text × List Text} (hr : q.compile = .ok r) : PlainQuery q := by
  have hknown := (CypherQuery.compile_iff.1 hr).1.2.2
  have hdeclared : ∀ a ∈ q.referenced, ∃ n ∈ parts.nodes, n.alias_ = a := by
    intro a ha
    obtain ⟨n, hn, rfl⟩ := List.mem_map.1 (hknown ha)
    exact ⟨n, hq.nodes n hn, rfl⟩
  constructor
  · intro c hc
    obtain ⟨n, hn, ha⟩ := hdeclared c.property.alias_
      (List.mem_append_left _ (List.mem_map_of_mem hc))
    exact ⟨ha ▸ n.alias_valid, h.conditions n hn c (hq.conditions c hc) ha.symm⟩
  · intro r hr
    obtain ⟨n, hn, ha⟩ := hdeclared r.alias_ (List.mem_append_right _ (List.mem_map_of_mem hr))
    refine ⟨ha ▸ n.alias_valid, ?_⟩
    cases r with
    | node _ => trivial
    | property p => exact h.properties n hn p (hq.returns _ hr) ha.symm

theorem parameter_mem_tokens {m : Meaning} {name : Text} (h : .parameter name ∈ m.tokens) :
    ∃ c ∈ m.conditions, c.2 = name := by
  have hcommas : ∀ {ι : Type} {f : ι → List Token} {items : List ι},
      (∀ i, .parameter name ∉ f i) → .parameter name ∉ commas (items.map f) := by
    intro ι f items hf hmem
    rcases mem_intercalate hmem with hsep | ⟨item, hitem, ht⟩
    · cases hsep
    · obtain ⟨i, -, rfl⟩ := List.mem_map.1 hitem
      exact hf i ht
  have hnode : .parameter name ∉ commas (m.nodes.map nodeTokens) := by
    refine hcommas ?_
    rintro ⟨a, l⟩
    cases l <;> simp [nodeTokens]
  have hreturn : .parameter name ∉ commas (m.returns.map returnTokens) := by
    refine hcommas ?_
    rintro ⟨a, n⟩
    cases n <;> simp [returnTokens]
  have hlimit : .parameter name ∉ limitTokens m.limit := by
    rcases m.limit with - | - | - <;> simp [limitTokens, intTokens, keyword]
  simp only [Meaning.tokens, keyword, List.mem_cons, List.mem_append, reduceCtorEq, hnode, hreturn,
    hlimit, false_or, or_false] at h
  unfold whereTokens at h
  split at h
  next => cases h
  next =>
    rcases mem_intercalate (List.mem_of_ne_of_mem (by simp [keyword]) h) with hsep | ⟨item, hitem, ht⟩
    · cases hsep
    · obtain ⟨c, hc, rfl⟩ := List.mem_map.1 hitem
      exact ⟨c, hc, by simpa [conditionTokens, eq_comm] using ht⟩

theorem faithful_of_plain {q : CypherQuery} (h : PlainQuery q) : Parts.Faithful q q.text := by
  refine ⟨lex_text h, fun tokens htokens name hname V parameters maxRows call hcall => ?_⟩
  obtain rfl : q.meaning.tokens = tokens := Option.some.inj ((lex_text h).symm.trans htokens)
  obtain ⟨c, hc, rfl⟩ := parameter_mem_tokens hname
  obtain ⟨condition, hcondition, rfl⟩ := List.mem_map.1 hc
  have hrequired := (CypherQuery.execute_ok hcall).2
  have hmem : condition.parameter ∈ q.required :=
    List.mem_toFinset.2 (List.mem_map_of_mem hcondition)
  rw [← hrequired, List.mem_toFinset] at hmem
  exact hmem

theorem conditionText_unique {c c' : GraphCondition} {rest rest' : Text}
    (hc : Alone c.operator (.symbol ['='])) (hc' : Alone c'.operator (.symbol ['=']))
    (hmeaning : c.meaning = c'.meaning)
    (h : CypherQuery.conditionText c ++ rest = CypherQuery.conditionText c' ++ rest') :
    c = c' ∧ rest = rest' := by
  obtain ⟨property, operator, parameter⟩ := c
  obtain ⟨property', operator', parameter'⟩ := c'
  obtain ⟨rfl, rfl⟩ : property = property' ∧ parameter = parameter' := Prod.mk.inj hmeaning
  have htext : ∀ (o rest : Text), CypherQuery.conditionText ⟨property, o, parameter⟩ ++ rest =
      CypherQuery.propertyText property ++ ' ' :: (o ++ ' ' :: '$' :: (parameter ++ rest)) := by
    intro o rest
    simp [CypherQuery.conditionText]
  rw [htext, htext] at h
  have hcut := (List.cons.inj (List.append_cancel_left h)).2
  obtain rfl : operator = operator' := alone_unique hc hc' hcut
  have hrest := (List.cons.inj (List.cons.inj (List.append_cancel_left hcut)).2).2
  exact ⟨rfl, List.append_cancel_left hrest⟩

theorem conditions_unique {cs cs' : List GraphCondition}
    (hcs : ∀ c ∈ cs, Alone c.operator (.symbol ['=']))
    (hcs' : ∀ c ∈ cs', Alone c.operator (.symbol ['=']))
    (hmeaning : cs.map GraphCondition.meaning = cs'.map GraphCondition.meaning)
    (h : " AND ".toList.intercalate (cs.map CypherQuery.conditionText) =
      " AND ".toList.intercalate (cs'.map CypherQuery.conditionText)) : cs = cs' := by
  induction cs generalizing cs' with
  | nil => exact (List.map_eq_nil_iff.1 hmeaning.symm).symm
  | cons c cs ih =>
    obtain ⟨c', rest', rfl, hc, hrest⟩ := List.map_eq_cons_iff.1 hmeaning.symm
    obtain ⟨hone, hall⟩ := List.forall_mem_cons.1 hcs
    obtain ⟨hone', hall'⟩ := List.forall_mem_cons.1 hcs'
    have hlength := congrArg List.length hrest
    rw [List.length_map, List.length_map] at hlength
    cases cs with
    | nil =>
      obtain rfl := List.length_eq_zero_iff.1 hlength
      have h' : CypherQuery.conditionText c ++ [] = CypherQuery.conditionText c' ++ [] := by
        simpa using h
      rw [(conditionText_unique hone hone' hc.symm h').1]
    | cons d cs =>
      obtain ⟨d', rest', rfl⟩ := List.exists_cons_of_length_eq_add_one hlength
      rw [List.map_cons, List.map_cons, List.intercalate_cons_cons, List.map_cons, List.map_cons,
        List.intercalate_cons_cons, List.append_assoc, List.append_assoc] at h
      obtain ⟨rfl, htail⟩ := conditionText_unique hone hone' hc.symm h
      rw [ih hall hall' hrest.symm (List.append_cancel_left htail)]

theorem map_injOn {ι κ : Type} {f : ι → κ} {l l' : List ι}
    (hf : ∀ a ∈ l, ∀ a' ∈ l', f a = f a' → a = a') (h : l.map f = l'.map f) : l = l' := by
  induction l generalizing l' with
  | nil => exact (List.map_eq_nil_iff.1 h.symm).symm
  | cons a l ih =>
    obtain ⟨a', rest, rfl, ha, hrest⟩ := List.map_eq_cons_iff.1 h.symm
    have hl := ih (fun b hb b' hb' =>
      hf b (List.mem_cons_of_mem a hb) b' (List.mem_cons_of_mem a' hb')) hrest.symm
    rw [hf a List.mem_cons_self a' List.mem_cons_self ha.symm, hl]

theorem returned_unique {parts : Parts} (h : parts.Plain) {r r' : Returned} (hr : parts.Has r)
    (hr' : parts.Has r') (heq : r.meaning = r'.meaning) : r = r' := by
  obtain ⟨halias, hname⟩ := Prod.mk.inj heq
  cases r with
  | node n =>
    cases r' with
    | node n' => rw [h.nodes n hr n' hr' halias]
    | property p' => cases hname
  | property p =>
    cases r' with
    | node n' => cases hname
    | property p' =>
      obtain ⟨a, name⟩ := p
      obtain ⟨a', name'⟩ := p'
      obtain rfl : a = a' := halias
      obtain rfl : name = name' := Option.some.inj hname
      rfl

/-- **Plain parts cannot be escaped from.** -/
theorem unescapable_of_plain {parts : Parts} (h : parts.Plain) : parts.Unescapable := by
  constructor
  · intro q hq text names hcompile
    obtain rfl : text = q.text := congrArg Prod.fst (CypherQuery.compile_iff.1 hcompile).2
    exact faithful_of_plain (plainQuery h hq hcompile)
  · intro q q' hq hq' text names names' hcompile hcompile'
    have hplain := plainQuery h hq hcompile
    have hplain' := plainQuery h hq' hcompile'
    obtain ⟨⟨hnodes, hreturns, -⟩, htext⟩ := CypherQuery.compile_iff.1 hcompile
    obtain ⟨⟨hnodes', hreturns', -⟩, htext'⟩ := CypherQuery.compile_iff.1 hcompile'
    have hsame : q.text = q'.text :=
      (congrArg Prod.fst htext).symm.trans (congrArg Prod.fst htext')
    have hlex := (lex_text hplain).symm.trans ((congrArg lex hsame).trans (lex_text hplain'))
    have hmeaning : q.meaning = q'.meaning :=
      tokens_injective (by simpa [CypherQuery.meaning] using hnodes)
        (by simpa [CypherQuery.meaning] using hnodes')
        (by simpa [CypherQuery.meaning] using hreturns)
        (by simpa [CypherQuery.meaning] using hreturns') (Option.some.inj hlex)
    have hqnodes : q.nodes = q'.nodes := by
      have hinjective : Function.Injective fun n : GraphNode => (n.alias_, n.label) := by
        rintro ⟨a, l, _, _⟩ ⟨a', l', _, _⟩ h
        obtain ⟨rfl, rfl⟩ := Prod.mk.inj h
        rfl
      exact hinjective.list_map (congrArg Meaning.nodes hmeaning)
    have hqreturns : q.returns = q'.returns := by
      refine map_injOn (fun r hr r' hr' heq => ?_) (congrArg Meaning.returns hmeaning)
      exact returned_unique h (hq.returns r hr) (hq'.returns r' hr') heq
    have hlimit : q.rowLimit = q'.rowLimit := congrArg Meaning.limit hmeaning
    refine ⟨hqnodes, ?_, hqreturns⟩
    have hconditions : q.conditions.map GraphCondition.meaning =
        q'.conditions.map GraphCondition.meaning := congrArg Meaning.conditions hmeaning
    unfold CypherQuery.text at hsame
    rw [hqnodes, hqreturns, hlimit] at hsame
    have hwhere := List.append_cancel_left
      (List.append_cancel_right (List.append_cancel_right hsame))
    unfold CypherQuery.whereText at hwhere
    by_cases hnil : q.conditions = []
    · rw [hnil] at hconditions ⊢
      exact (List.map_eq_nil_iff.1 hconditions.symm).symm
    · have hnil' : q'.conditions ≠ [] := by
        intro h
        rw [h] at hconditions
        exact hnil (List.map_eq_nil_iff.1 hconditions)
      rw [if_neg hnil, if_neg hnil'] at hwhere
      exact conditions_unique (fun c hc => (hplain.conditions c hc).2.2.1)
        (fun c hc => (hplain'.conditions c hc).2.2.1) hconditions (List.append_cancel_left hwhere)

/-! ## Parts that are not plain -/

/-- A query of one node, with one result under the name `x`. -/
def probe (node : GraphNode) (conditions : List GraphCondition) (value : Returned)
    (rowLimit : Option Int) : CypherQuery :=
  ⟨"g".toList, [node], conditions, [value], ["x".toList], rowLimit, by decide⟩

section Probes

variable {parts : Parts} {node : GraphNode}

theorem probe_assembled (hn : node ∈ parts.nodes) (conditions : List GraphCondition)
    (hc : ∀ c ∈ conditions, c ∈ parts.conditions) (value : Returned) (hv : parts.Has value)
    (k : Option Int) : parts.Assembled (probe node conditions value k) :=
  ⟨fun _ h => List.mem_singleton.1 h ▸ hn, hc, fun _ h => List.mem_singleton.1 h ▸ hv⟩

theorem probe_compile (node : GraphNode) (conditions : List GraphCondition)
    (hc : ∀ c ∈ conditions, c.property.alias_ = node.alias_) (value : Returned)
    (hv : value.alias_ = node.alias_) (k : Option Int) :
    (probe node conditions value k).compile =
      .ok ((probe node conditions value k).text, ["x".toList]) := by
  refine CypherQuery.compile_iff.2 ⟨⟨List.cons_ne_nil _ _, List.cons_ne_nil _ _, ?_⟩, rfl⟩
  intro a ha
  rcases List.mem_append.1 ha with ha | ha
  · obtain ⟨c, hcmem, rfl⟩ := List.mem_map.1 ha
    exact List.mem_singleton.2 (hc c hcmem)
  · rw [List.mem_singleton.1 ha]
    exact List.mem_singleton.2 hv

/-- Two nodes of one alias are written alike. -/
theorem nodes_of_unescapable (h : parts.Unescapable) {m n : GraphNode} (hm : m ∈ parts.nodes)
    (hn : n ∈ parts.nodes) (heq : m.alias_ = n.alias_) : m = n := by
  have htext : (probe m [] (.node n) none).text = (probe m [] (.node m) none).text := by
    show CypherQuery.matchText [m] ++ [] ++ (" RETURN ".toList ++
      ", ".toList.intercalate [cypherIdentifier n.alias_]) ++ [] = CypherQuery.matchText [m] ++ [] ++
        (" RETURN ".toList ++ ", ".toList.intercalate [cypherIdentifier m.alias_]) ++ []
    rw [heq]
  have hfirst := probe_compile m [] (by simp) (.node m) rfl none
  have hsecond := probe_compile m [] (by simp) (.node n) heq.symm none
  rw [htext] at hsecond
  have hreturns := (h.distinct _ _ (probe_assembled hm [] (by simp) (.node m) hm none)
    (probe_assembled hm [] (by simp) (.node n) hn none) _ _ _ hfirst hsecond).2.2
  exact Returned.node.inj (List.cons.inj hreturns).1

/-- What a faithful text is read as, behind what is known to be read. -/
theorem lex_of_faithful {text rest : Text} {q : CypherQuery} (known expected : List Token)
    (h : Parts.Faithful q text) (hlex : lex text = (lex rest).map (known ++ ·))
    (htokens : q.meaning.tokens = known ++ expected) : lex rest = some expected := by
  have hreads := h.reads
  rw [hlex, htokens] at hreads
  obtain ⟨tokens, hrest, heq⟩ := Option.map_eq_some_iff.1 hreads
  rw [hrest, List.append_cancel_left heq]

theorem lex_opening (n : GraphNode) (rest : Text) :
    lex (CypherQuery.matchText [n] ++ ' ' :: rest) =
      (lex rest).map (keyword "MATCH" :: nodeTokens (n.alias_, n.label) ++ ·) := by
  rw [lex_matchText [n] (ends_tick _ _ (by simp)), lex_space (by decide)]
  simp [commas]

theorem property_of_unescapable (h : parts.Unescapable) (hn : node ∈ parts.nodes)
    {p : GraphProperty} (hp : p ∈ parts.properties) (ha : p.alias_ = node.alias_) :
    PlainProperty p := by
  have hcompile := probe_compile node [] (by simp) (.property p) ha none
  have hfaithful := h.faithful _ (probe_assembled hn [] (by simp) (.property p) hp none) _ _ hcompile
  have htext : (probe node [] (.property p) none).text = CypherQuery.matchText [node] ++
      ' ' :: ('R' :: ['E', 'T', 'U', 'R', 'N'] ++ ' ' :: (CypherQuery.propertyText p ++ [])) := by
    show CypherQuery.matchText [node] ++ [] ++ (" RETURN ".toList ++
      ", ".toList.intercalate [CypherQuery.propertyText p]) ++ [] = _
    simp
  have hlex := congrArg lex htext
  rw [lex_opening, lex_keyword (by decide) (by decide) (by decide),
    lex_propertyText (ha ▸ node.alias_valid), List.append_nil, Option.map_map, Option.map_map]
    at hlex
  refine name_of_lex (lex_of_faithful (keyword "MATCH" :: nodeTokens (node.alias_, node.label) ++
      [keyword "RETURN", .name p.alias_, .symbol ['.']]) [.name p.name] hfaithful ?_ ?_)
  · rw [hlex]
    congr 1
    funext l
    simp [keyword]
  · simp [CypherQuery.meaning, probe, Meaning.tokens, whereTokens, limitTokens, commas, returnTokens,
      Returned.meaning]

/-- What is read behind the first condition, when it is the only one. -/
def following (n : GraphNode) : Text :=
  'R' :: ['E', 'T', 'U', 'R', 'N'] ++ ' ' :: cypherIdentifier n.alias_

theorem identifier_cons {value : Text} (h : isIdentifier value = true) :
    ∃ c w, value = c :: w ∧ begins c = some ([], .word [c]) ∧ ∀ d ∈ w, isContinued d = true := by
  simp only [isIdentifier, Bool.and_eq_true, decide_eq_true_eq] at h
  obtain ⟨c, w, rfl⟩ := List.exists_cons_of_ne_nil h.1.1.1
  have hletter : ∀ d ∈ c :: w, isContinued d = true := by
    intro d hd
    have hd := List.all_eq_true.1 h.2 d hd
    simp only [Char.isAlphanum, Bool.or_eq_true, decide_eq_true_eq] at hd
    simp only [isContinued, isStart, Bool.or_eq_true, decide_eq_true_eq]
    tauto
  have hstart : isStart c = true := by
    have hc := h.1.2
    simp only [List.head?_cons, Option.any_some, Bool.or_eq_true, decide_eq_true_eq] at hc
    simp only [isStart, Bool.or_eq_true, decide_eq_true_eq]
    tauto
  refine ⟨c, w, rfl, ?_, fun d hd => hletter d (List.mem_cons_of_mem c hd)⟩
  have hspace : isSpace c = false := by
    by_contra hspace
    simp only [isSpace, Bool.or_eq_true, decide_eq_true_eq, Bool.not_eq_false] at hspace
    rcases hspace with ((((rfl | rfl) | rfl) | rfl) | rfl) | rfl <;> cases hstart
  unfold begins
  rw [hspace, if_neg Bool.false_ne_true, if_pos hstart]

theorem following_plain (n : GraphNode) : ∀ c ∈ following n, c ∉ closing := by
  have hidentifier : ∀ c ∈ n.alias_, c ∉ closing := by
    intro c hc hmem
    have hvalid := n.alias_valid
    simp only [isIdentifier, Bool.and_eq_true] at hvalid
    have hletter := List.all_eq_true.1 hvalid.2 c hc
    have hclosing : closing.all (fun c => !(c.isAlphanum || decide (c = '_'))) = true := by decide
    have := List.all_eq_true.1 hclosing c hmem
    rw [hletter] at this
    cases this
  have hword : ['R', 'E', 'T', 'U', 'R', 'N', ' ', '\x60'].all (fun c => c ∉ closing) = true := by
    decide
  have htext : following n = ['R', 'E', 'T', 'U', 'R', 'N', ' ', '\x60'] ++ (n.alias_ ++ ['\x60']) := rfl
  intro c hc
  rw [htext, List.mem_append, List.mem_append] at hc
  rcases hc with hc | hc | hc
  · exact of_decide_eq_true (List.all_eq_true.1 hword c hc)
  · exact hidentifier c hc
  · rw [List.mem_singleton.1 hc]
    decide

/-- Between backticks this is a name that is followed by a name that does not end. -/
theorem reads_quoted_following (n : GraphNode) (name : Text) :
    reads (.quoted name) (' ' :: following n) = none := by
  obtain ⟨c, w, ha, hc, hw⟩ := identifier_cons n.alias_valid
  have hne : name ++ [' ', 'R', 'E', 'T', 'U', 'R', 'N', ' '] ≠ [] := by simp
  have hname : runs (.quoted name) [' ', 'R', 'E', 'T', 'U', 'R', 'N', ' '] =
      some ([], .quoted (name ++ [' ', 'R', 'E', 'T', 'U', 'R', 'N', ' '])) :=
    runs_quoted _ (by decide)
  have htick : c ≠ '\x60' := by
    rintro rfl
    cases hc
  have hstep : step (.tick (name ++ [' ', 'R', 'E', 'T', 'U', 'R', 'N', ' '])) c =
      some ([.name (name ++ [' ', 'R', 'E', 'T', 'U', 'R', 'N', ' '])], .word [c]) := by
    show (if c = '\x60' then _ else if name ++ _ = [] then _ else _) = _
    rw [if_neg htick, if_neg hne, hc]
    rfl
  have htext : ' ' :: following n = [' ', 'R', 'E', 'T', 'U', 'R', 'N', ' '] ++
      '\x60' :: c :: (w ++ ['\x60']) := by
    rw [following, cypherIdentifier, ha]
    rfl
  rw [htext, reads, Transducer.read, Transducer.run_append hname,
    Transducer.run_cons (show step (.quoted _) '\x60' = some ([], .tick _) from rfl),
    Transducer.run_cons hstep, Transducer.run_append (runs_word w hw)]
  rfl

theorem lex_following (n : GraphNode) :
    lex (following n) = some [keyword "RETURN", .name n.alias_] := by
  have hname := lex_identifier (name_of_identifier n.alias_valid) ends_nil
  rw [List.append_nil] at hname
  rw [following, lex_keyword (by decide) (by decide) (by decide), hname]
  rfl

/-- What stands between the property of the only condition and the end of the text. -/
theorem lex_condition (h : parts.Unescapable) (hn : node ∈ parts.nodes) {c : GraphCondition}
    (hc : c ∈ parts.conditions) (ha : c.property.alias_ = node.alias_) (k : Option Int) :
    lex (c.operator ++ ' ' :: '$' :: c.parameter ++ ' ' :: (following node ++
      CypherQuery.limitText k)) = some ([.symbol ['='], .parameter c.parameter] ++
        ([keyword "RETURN", .name node.alias_] ++ limitTokens k)) := by
  have hp := property_of_unescapable h hn (parts.property_mem c hc) ha
  have hconditions : ∀ d ∈ [c], d ∈ parts.conditions := fun d hd => List.mem_singleton.1 hd ▸ hc
  have haliases : ∀ d ∈ [c], d.property.alias_ = node.alias_ :=
    fun d hd => List.mem_singleton.1 hd ▸ ha
  have hcompile := probe_compile node [c] haliases (.node node) rfl k
  have hfaithful := h.faithful _ (probe_assembled hn [c] hconditions (.node node) hn k) _ _ hcompile
  have htext : (probe node [c] (.node node) k).text = CypherQuery.matchText [node] ++
      ' ' :: ('W' :: ['H', 'E', 'R', 'E'] ++ ' ' :: (CypherQuery.conditionText c ++
        ' ' :: (following node ++ CypherQuery.limitText k))) := by
    show CypherQuery.matchText [node] ++ (" WHERE ".toList ++
      " AND ".toList.intercalate [CypherQuery.conditionText c]) ++ (" RETURN ".toList ++
        ", ".toList.intercalate [cypherIdentifier node.alias_]) ++ CypherQuery.limitText k = _
    simp [following]
  have hlex := congrArg lex htext
  rw [lex_opening, lex_keyword (by decide) (by decide) (by decide),
    lex_conditionText (ha ▸ node.alias_valid) hp, Option.map_map, Option.map_map] at hlex
  refine lex_of_faithful (keyword "MATCH" :: nodeTokens (node.alias_, node.label) ++
      [keyword "WHERE", .name c.property.alias_, .symbol ['.'], .name c.property.name]) _
      hfaithful ?_ ?_
  · rw [hlex]
    congr 1
    funext l
    simp [keyword]
  · simp [CypherQuery.meaning, probe, Meaning.tokens, whereTokens, commas, returnTokens,
      Returned.meaning, GraphCondition.meaning, conditionTokens]

theorem limit_plain : ∀ c ∈ CypherQuery.limitText (some 1), c ∉ closing := by
  have hall : (CypherQuery.limitText (some 1)).all (fun c => c ∉ closing) = true := by decide
  exact fun c hc => of_decide_eq_true (List.all_eq_true.1 hall c hc)

theorem condition_of_unescapable (h : parts.Unescapable) (hn : node ∈ parts.nodes)
    {c : GraphCondition} (hc : c ∈ parts.conditions) (ha : c.property.alias_ = node.alias_) :
    PlainCondition c := by
  refine ⟨property_of_unescapable h hn (parts.property_mem c hc) ha, ?_⟩
  have hnone := lex_condition h hn hc ha none
  have hone := lex_condition h hn hc ha (some 1)
  rw [show CypherQuery.limitText none = [] from rfl, List.append_nil,
    show limitTokens none = [] from rfl, List.append_nil] at hnone
  refine alone_of_runs (runs_of_lex (lex_following node) hnone hone ?_ (following_plain node) ?_
    (reads_quoted_following node))
  · intro heq
    have := congrArg List.length heq
    simp [limitTokens, intTokens] at this
  · intro d hd
    rcases List.mem_append.1 hd with hd | hd
    · exact following_plain node d hd
    · exact limit_plain d hd

end Probes

/-! ## The builder -/

/-- **Queries cannot be escaped from exactly when their parts are plain.** -/
theorem unescapable_iff (parts : Parts) : parts.Unescapable ↔ parts.Plain := by
  refine ⟨fun h => ⟨fun m hm n hn => ?_, fun n hn p hp => ?_, fun n hn c hc => ?_⟩,
    unescapable_of_plain⟩
  · exact nodes_of_unescapable h hm hn
  · exact property_of_unescapable h hn hp
  · exact condition_of_unescapable h hn hc


/-- One result, whose name closes its backticks, is read as two: the text is that of another
query. -/
theorem unescapable_limits :
    ∃ q q' : CypherQuery,
      ((do
        let n ← graphNode ['n'] none
        let matched ← (← graphQuery ['g']).match_ [n]
        matched.returning [.property ⟨['n'], "a`, `n`.`b".toList⟩] (some [['x']])) = .ok q) ∧
      ((do
        let n ← graphNode ['n'] none
        let matched ← (← graphQuery ['g']).match_ [n]
        matched.returning [.property (← n.property ['a']), .property (← n.property ['b'])] none) =
          .ok q') ∧
      q.compile.map Prod.fst = q'.compile.map Prod.fst ∧ q.compile.isOk = true ∧
      q.returns ≠ q'.returns ∧
      lex q.text = some [keyword "MATCH", .symbol ['('], .name ['n'], .symbol [')'],
        keyword "RETURN", .name ['n'], .symbol ['.'], .name ['a'], .symbol [','], .name ['n'],
        .symbol ['.'], .name ['b']] := by
  refine ⟨⟨['g'], [⟨['n'], none, by decide, by decide⟩], [],
      [.property ⟨['n'], "a`, `n`.`b".toList⟩], [['x']], none, by decide⟩,
    ⟨['g'], [⟨['n'], none, by decide, by decide⟩], [],
      [.property ⟨['n'], ['a']⟩, .property ⟨['n'], ['b']⟩], [['a'], ['b']], none, by decide⟩, ?_⟩
  refine ⟨?_, ?_, ?_, ?_, ?_, ?_⟩ <;> decide +kernel

end Plenora.Sdk.GraphQuery
