import Plenora.Lib.Outcome
import Plenora.Lib.SetExpressions
import Plenora.Core.QueryAst

/-!
# Rendering a query with set operations

`render_query_scoped` writes the operations of a query one after the other, each
operand in parentheses, then the ordering and the row window.  The server reads the
text by the standard grammar, where an `INTERSECT` binds tighter.  For every text the
renderer writes, the text is a statement `s` of that grammar, and with the `listing` of what the
query asks for

    MeansAsListed s listing:  on all rows, the meaning of `s` is the listed operations from left
                              to right, then the listed ordering and window
    MeansAsListed s listing ↔ Faithful dialect q              (renderQuery_denotes_iff)
-/

namespace Plenora.Sql

open Plenora.Lib Plenora.Lib.SetExpressions Plenora.Core

inductive Dialect where
  | postgres | mysql | sqlServer | oracle | db2 | sqlite | duckdb
  deriving DecidableEq, Repr

/-! ## The text -/

/-- A piece of the text.  A clause is text rendered elsewhere, its parentheses closed. -/
inductive Token where
  | clause (text : String)
  | top (limit : UInt64)
  | setOperator (operator : QuerySetOperator) (all : Bool)
  | openParen
  | closeParen
  | orderBy (text : String)
  | limit (count : UInt64)
  | offset (count : UInt64)
  | fetchFirst (count : UInt64)
  | offsetRows (count : UInt64)
  | fetchNext (count : UInt64)
  | locking (text : String)
  deriving DecidableEq, Repr

/-! ## The renderer -/

/-- How the clauses are rendered, with the state of the binds and of the scopes. -/
structure ClauseRenderer (σ : Type) where
  /-- `WITH … SELECT DISTINCT`. -/
  head : QueryOperation → StateT σ Result String
  /-- From the projection to `HAVING`. -/
  body : Bool → QueryOperation → StateT σ Result String
  ordering : List QueryOrdering → StateT σ Result String
  locking : QueryOperation → QueryLock → StateT σ Result String
  enter : QueryOperation → σ → σ
  leave : σ → σ

section Renderer

variable {σ : Type} (clauses : ClauseRenderer σ) (dialect : Dialect)

/-- `TOP`, which stands in the first `SELECT`. -/
def topTokens (q : QueryOperation) : List Token :=
  if dialect = .sqlServer then
    match q.rowLimit, q.rowOffset with
    | some limit, none => [.top limit]
    | _, _ => []
  else []

def limitTokens (q : QueryOperation) : List Token :=
  match q.rowLimit with
  | some limit =>
    match dialect with
    | .postgres | .mysql | .sqlite | .duckdb => [.limit limit]
    | .oracle | .db2 => if q.rowOffset.isNone then [.fetchFirst limit] else []
    | .sqlServer => []
  | none => []

def offsetTokens (q : QueryOperation) : List Token :=
  match q.rowOffset with
  | some offset =>
    match dialect with
    | .postgres | .mysql | .sqlite | .duckdb => [.offset offset]
    | .oracle | .db2 | .sqlServer =>
      .offsetRows offset :: q.rowLimit.toList.map .fetchNext
  | none => []

def renderOrdering (q : QueryOperation) : StateT σ Result (List Token) :=
  if q.orderBy = [] then pure []
  else do
    let text ← clauses.ordering q.orderBy
    pure [.orderBy text]

def renderLocking (q : QueryOperation) : StateT σ Result (List Token) :=
  match q.locking with
  | some lock => do
    let text ← clauses.locking q lock
    pure [.locking text]
  | none => pure []

theorem sizeOf_set_lt {q : QueryOperation} {set : QuerySetOperation} (h : set ∈ q.setOperations) :
    sizeOf set.query < sizeOf q := by
  have hpart : QueryPart.operation set.query ∈ q.parts := by
    simp only [QueryOperation.parts, List.mem_append, List.mem_map]
    exact .inr ⟨set, h, rfl⟩
  exact QueryOperation.size_part_lt hpart

def renderQueryInner (encode : Bool) (q : QueryOperation) : StateT σ Result (List Token) := do
  modify (clauses.enter q)
  let head ← clauses.head q
  let body ← clauses.body encode q
  let operations ← q.setOperations.attach.mapM fun set => do
    let operand ← renderQueryInner encode set.1.query
    pure ([.setOperator set.1.operator set.1.all, .openParen] ++ operand ++ [.closeParen])
  let ordering ← renderOrdering clauses q
  let locking ← renderLocking clauses q
  modify clauses.leave
  pure ([.clause head] ++ topTokens dialect q ++ [.clause body] ++ operations.flatten ++ ordering ++
    limitTokens dialect q ++ offsetTokens dialect q ++ locking)
termination_by sizeOf q
decreasing_by exact sizeOf_set_lt set.2

end Renderer

/-! ## Reading the text -/

/-- How many parentheses are open after a token. -/
def Token.depthAfter (depth : Nat) : Token → Nat
  | .openParen => depth + 1
  | .closeParen => depth - 1
  | _ => depth

/-- The tokens before the parenthesis that closes the group, and those after it. -/
def closing (depth : Nat) : List Token → Option (List Token × List Token)
  | [] => none
  | token :: rest =>
    if token = .closeParen ∧ depth = 0 then some ([], rest)
    else (closing (token.depthAfter depth) rest).map fun group => (token :: group.1, group.2)

theorem closing_length {depth : Nat} {tokens : List Token} {group : List Token × List Token}
    (h : closing depth tokens = some group) : group.2.length < tokens.length := by
  induction tokens generalizing depth group with
  | nil => cases h
  | cons token rest ih =>
    rw [closing] at h
    split at h
    next =>
      cases h
      simp
    next =>
      obtain ⟨inner, hinner, rfl⟩ := Option.map_eq_some_iff.1 h
      have := ih hinner
      simp
      omega

/-- Text that closes every parenthesis it opens. -/
def Closed (tokens : List Token) : Prop :=
  ∀ depth rest, closing depth (tokens ++ rest) =
    (closing depth rest).map fun group => (tokens ++ group.1, group.2)

theorem closed_nil : Closed [] := by
  intro depth rest
  simp

theorem closed_append {a b : List Token} (ha : Closed a) (hb : Closed b) : Closed (a ++ b) := by
  intro depth rest
  rw [List.append_assoc, ha, hb, Option.map_map]
  simp [Function.comp_def]

theorem closed_plain {token : Token} (hopen : token ≠ .openParen) (hclose : token ≠ .closeParen) :
    Closed [token] := by
  intro depth rest
  have hdepth : token.depthAfter depth = depth := by
    cases token with
    | openParen => exact absurd rfl hopen
    | closeParen => exact absurd rfl hclose
    | _ => rfl
  rw [List.singleton_append, closing, if_neg fun h => hclose h.1, hdepth]
  rfl

theorem closing_group {operand rest : List Token} (h : Closed operand) :
    closing 0 (operand ++ .closeParen :: rest) = some (operand, rest) := by
  rw [h, closing, if_pos ⟨rfl, rfl⟩]
  simp

theorem closed_group {operand : List Token} (h : Closed operand) :
    Closed ([.openParen] ++ operand ++ [.closeParen]) := by
  intro depth rest
  have hclose : closing (depth + 1) (.closeParen :: rest) =
      (closing depth rest).map fun group => (.closeParen :: group.1, group.2) := by
    rw [closing, if_neg (by simp)]
    rfl
  rw [List.append_assoc, List.append_assoc, List.singleton_append, closing, if_neg (by simp)]
  show (closing (depth + 1) (operand ++ ([.closeParen] ++ rest))).map _ = _
  rw [h, List.singleton_append, hclose, Option.map_map, Option.map_map]
  simp [Function.comp_def]

/-- The server's names of the operators. -/
def meaning : QuerySetOperator → SetOperator
  | .union => .union
  | .intersect => .intersect
  | .except => .except

/-- The operations of a statement and what follows them. -/
def readOperations (tokens : List Token) : Option (List (Step (List Token)) × List Token) :=
  match tokens with
  | .setOperator operator all :: .openParen :: rest =>
    match _h : closing 0 rest with
    | none => none
    | some (operand, rest') =>
      (readOperations rest').map fun more => (⟨meaning operator, all, operand⟩ :: more.1, more.2)
  | _ => some ([], tokens)
termination_by tokens.length
decreasing_by
  have := closing_length _h
  simp at this ⊢
  omega

/-- The row window of a statement. -/
structure Window where
  offset : Option UInt64
  limit : Option UInt64
  deriving DecidableEq, Repr

/-- A first `SELECT` block, operations, and what applies to their result. -/
structure Listing where
  block : String × String
  operations : List (Step (List Token))
  orderBy : Option String
  window : Window

/-- What the server reads, with the `TOP` of the first block. -/
structure Statement extends Listing where
  top : Option UInt64

def readWindow : List Token → Option Window
  | [] | [.locking _] => some ⟨none, none⟩
  | [.limit n] | [.limit n, .locking _] | [.fetchFirst n] | [.fetchFirst n, .locking _] =>
    some ⟨none, some n⟩
  | [.limit n, .offset m] | [.limit n, .offset m, .locking _] | [.offsetRows m, .fetchNext n]
  | [.offsetRows m, .fetchNext n, .locking _] => some ⟨some m, some n⟩
  | [.offset m] | [.offset m, .locking _] | [.offsetRows m] | [.offsetRows m, .locking _] =>
    some ⟨some m, none⟩
  | _ => none

def readTail : List Token → Option (Option String × Window)
  | .orderBy text :: rest => (readWindow rest).map fun window => (some text, window)
  | rest => (readWindow rest).map fun window => (none, window)

/-- The first block of a statement, its `TOP`, and what follows the block. -/
def readBlock : List Token → Option ((String × String) × Option UInt64 × List Token)
  | .clause head :: .top n :: .clause body :: rest => some ((head, body), some n, rest)
  | .clause head :: .clause body :: rest => some ((head, body), none, rest)
  | _ => none

def read (tokens : List Token) : Option Statement := do
  let (block, top, rest) ← readBlock tokens
  let (operations, rest) ← readOperations rest
  let (orderBy, window) ← readTail rest
  some { block, operations, orderBy, window, top }

/-! ## The text that is written -/

section Written

variable {σ : Type}

theorem stateT_bind_eq_ok {ε α β : Type} {x : StateT σ (Except ε) α} {f : α → StateT σ (Except ε) β}
    {st : σ} {r : β × σ} :
    (x >>= f) st = .ok r ↔ ∃ a st', x st = .ok (a, st') ∧ f a st' = .ok r := by
  show (x st >>= fun p => f p.1 p.2) = .ok r ↔ _
  rw [bind_eq_ok]
  constructor
  · rintro ⟨⟨a, st'⟩, hx, hf⟩
    exact ⟨a, st', hx, hf⟩
  · rintro ⟨a, st', hx, hf⟩
    exact ⟨(a, st'), hx, hf⟩

/-- What holds of each step of a chain holds along its results. -/
theorem forall₂_of_stateT_mapM {ε α β : Type} {f : α → StateT σ (Except ε) β} {P : α → β → Prop}
    (hf : ∀ a st b st', f a st = .ok (b, st') → P a b) {as : List α} {st st' : σ} {bs : List β}
    (h : (as.mapM f) st = .ok (bs, st')) : List.Forall₂ P as bs := by
  induction as generalizing st bs with
  | nil =>
    rw [List.mapM_nil] at h
    cases h
    exact .nil
  | cons a as ih =>
    rw [List.mapM_cons, stateT_bind_eq_ok] at h
    obtain ⟨b, st₁, hb, h⟩ := h
    obtain ⟨more, st₂, hmore, h⟩ := stateT_bind_eq_ok.1 h
    cases h
    exact .cons (hf a st b st₁ hb) (ih hmore)

/-- One operation with its operand. -/
def operationTokens (set : QuerySetOperation) (operand : List Token) : List Token :=
  [Token.setOperator set.operator set.all, Token.openParen] ++ operand ++ [Token.closeParen]

section Rendered

variable (clauses : ClauseRenderer σ) (dialect : Dialect) (encode : Bool) (q : QueryOperation)

/-- What the renderer writes for a query, in some state of the binds and of the scopes. -/
def Renders (tokens : List Token) : Prop :=
  ∃ st st', renderQueryInner clauses dialect encode q st = .ok (tokens, st')

/-- The text of the ordering, where there is one. -/
def RendersOrdering : Option String → Prop
  | none => q.orderBy = []
  | some text => q.orderBy ≠ [] ∧ ∃ st st', clauses.ordering q.orderBy st = .ok (text, st')

/-- What a query asks for, each part in the text that is rendered for it. -/
structure Lists (listing : Listing) : Prop where
  head : ∃ st st', clauses.head q st = .ok (listing.block.1, st')
  body : ∃ st st', clauses.body encode q st = .ok (listing.block.2, st')
  operations : List.Forall₂ (fun set step => step.shape = (meaning set.operator, set.all) ∧
    Renders clauses dialect encode set.query step.operand) q.setOperations listing.operations
  orderBy : RendersOrdering clauses q listing.orderBy
  window : listing.window = ⟨q.rowOffset, q.rowLimit⟩

/-- The text of one operation. -/
def OperationText (set : QuerySetOperation) (text : List Token) : Prop :=
  ∃ operand, Closed operand ∧ Renders clauses dialect encode set.query operand ∧
    text = operationTokens set operand

/-- The parts of the text of a query. -/
structure Written (tokens : List Token) where
  head : String
  body : String
  operations : List (List Token)
  orderBy : Option String
  locking : List Token
  head_eq : ∃ st st', clauses.head q st = .ok (head, st')
  body_eq : ∃ st st', clauses.body encode q st = .ok (body, st')
  operations_eq : List.Forall₂ (OperationText clauses dialect encode) q.setOperations operations
  orderBy_eq : RendersOrdering clauses q orderBy
  locking_eq : locking = [] ∨ ∃ text, locking = [.locking text]
  tokens_eq : tokens = [.clause head] ++ topTokens dialect q ++ [.clause body] ++
    operations.flatten ++ orderBy.toList.map .orderBy ++ limitTokens dialect q ++
    offsetTokens dialect q ++ locking

end Rendered

variable {clauses : ClauseRenderer σ} {dialect : Dialect} {encode : Bool} {q : QueryOperation}

theorem closed_of_plain {tokens : List Token}
    (h : ∀ token ∈ tokens, token ≠ .openParen ∧ token ≠ .closeParen) : Closed tokens := by
  induction tokens with
  | nil => exact closed_nil
  | cons token tokens ih =>
    obtain ⟨htoken, htokens⟩ := List.forall_mem_cons.1 h
    exact closed_append (a := [token]) (closed_plain htoken.1 htoken.2) (ih htokens)

theorem closed_operations {sets : List QuerySetOperation} {operations : List (List Token)}
    (h : List.Forall₂ (OperationText clauses dialect encode) sets operations) :
    Closed operations.flatten := by
  induction h with
  | nil => exact closed_nil
  | cons hfirst _ ih =>
    obtain ⟨operand, hoperand, -, rfl⟩ := hfirst
    rw [List.flatten_cons]
    refine closed_append ?_ ih
    exact closed_append (a := [_]) (closed_plain (by simp) (by simp)) (closed_group hoperand)

/-- The tokens after the operations open no parenthesis. -/
theorem closed_tail (dialect : Dialect) (q : QueryOperation) :
    Closed (limitTokens dialect q ++ offsetTokens dialect q) := by
  refine closed_of_plain fun token htoken => ?_
  unfold limitTokens offsetTokens at htoken
  cases hlimit : q.rowLimit <;> cases hoffset : q.rowOffset <;> cases dialect <;>
    simp [hlimit, hoffset] at htoken <;> rcases htoken with rfl | rfl <;> simp

theorem closed_of_written {tokens : List Token} (w : Written clauses dialect encode q tokens) :
    Closed tokens := by
  have htop : Closed (topTokens dialect q) := by
    unfold topTokens
    split
    next =>
      split
      next => exact closed_plain (by simp) (by simp)
      next => exact closed_nil
    next => exact closed_nil
  have hordering : Closed (w.orderBy.toList.map .orderBy) := by
    cases w.orderBy with
    | none => exact closed_nil
    | some text => exact closed_plain (by simp) (by simp)
  have hlocking : Closed w.locking := by
    rcases w.locking_eq with h | ⟨text, h⟩ <;> rw [h]
    · exact closed_nil
    · exact closed_plain (by simp) (by simp)
  rw [w.tokens_eq, List.append_assoc _ (limitTokens dialect q)]
  have hclause : ∀ text, Closed [Token.clause text] := fun text => closed_plain (by simp) (by simp)
  exact closed_append (closed_append (closed_append (closed_append (closed_append (closed_append
    (hclause _) htop) (hclause _)) (closed_operations w.operations_eq)) hordering)
    (closed_tail dialect q)) hlocking

theorem renderOrdering_eq {st st' : σ} {ordering : List Token}
    (h : renderOrdering clauses q st = .ok (ordering, st')) :
    ∃ orderBy, RendersOrdering clauses q orderBy ∧ ordering = orderBy.toList.map .orderBy := by
  unfold renderOrdering at h
  split at h
  next hnil =>
    cases h
    exact ⟨none, hnil, rfl⟩
  next hne =>
    obtain ⟨text, st₁, htext, h⟩ := stateT_bind_eq_ok.1 h
    cases h
    exact ⟨some text, ⟨hne, _, _, htext⟩, rfl⟩

theorem renderQueryInner_written (q : QueryOperation) (st st' : σ) (tokens : List Token)
    (h : renderQueryInner clauses dialect encode q st = .ok (tokens, st')) :
    Nonempty (Written clauses dialect encode q tokens) := by
  induction hsize : sizeOf q using Nat.strong_induction_on generalizing q st st' tokens with
  | h size ih =>
    rw [renderQueryInner] at h
    obtain ⟨_, st₁, -, h⟩ := stateT_bind_eq_ok.1 h
    obtain ⟨head, st₂, hhead, h⟩ := stateT_bind_eq_ok.1 h
    obtain ⟨body, st₃, hbody, h⟩ := stateT_bind_eq_ok.1 h
    obtain ⟨operations, st₄, hoperations, h⟩ := stateT_bind_eq_ok.1 h
    obtain ⟨ordering, st₅, hordering, h⟩ := stateT_bind_eq_ok.1 h
    obtain ⟨locking, st₆, hlocking, h⟩ := stateT_bind_eq_ok.1 h
    obtain ⟨_, st₇, -, h⟩ := stateT_bind_eq_ok.1 h
    cases h
    obtain ⟨orderBy, horderBy, rfl⟩ := renderOrdering_eq hordering
    refine ⟨⟨head, body, operations, orderBy, locking, ⟨_, _, hhead⟩, ⟨_, _, hbody⟩, ?_, horderBy,
      ?_, rfl⟩⟩
    · have hall := forall₂_of_stateT_mapM
        (P := fun set text => OperationText clauses dialect encode set.1 text) ?_ hoperations
      · rw [← List.attach_map_subtype_val q.setOperations, List.forall₂_map_left_iff]
        exact hall
      · intro set st₁ text st₂ htext
        obtain ⟨operand, st, hoperand, htext⟩ := stateT_bind_eq_ok.1 htext
        cases htext
        obtain ⟨w⟩ := ih (sizeOf set.1.query) (hsize ▸ sizeOf_set_lt set.2) set.1.query st₁ st₂
          operand hoperand rfl
        exact ⟨operand, closed_of_written w, ⟨_, _, hoperand⟩, rfl⟩
    · unfold renderLocking at hlocking
      cases hlock : q.locking with
      | some lock =>
        rw [hlock] at hlocking
        obtain ⟨text, st, -, hlocking⟩ := stateT_bind_eq_ok.1 hlocking
        cases hlocking
        exact .inr ⟨text, rfl⟩
      | none =>
        rw [hlock] at hlocking
        cases hlocking
        exact .inl rfl

/-! ## What the server reads -/

/-- The limit the text puts on the first block, not on the result. -/
def topOf (dialect : Dialect) (q : QueryOperation) : Option UInt64 :=
  if dialect = .sqlServer ∧ q.rowOffset = none then q.rowLimit else none

def windowOf (dialect : Dialect) (q : QueryOperation) : Window :=
  if (topOf dialect q).isSome then ⟨none, none⟩ else ⟨q.rowOffset, q.rowLimit⟩

theorem readBlock_written (dialect : Dialect) (q : QueryOperation) (head body : String)
    (rest : List Token) :
    readBlock ([.clause head] ++ topTokens dialect q ++ [.clause body] ++ rest) =
      some ((head, body), topOf dialect q, rest) := by
  unfold topTokens topOf
  cases q.rowLimit <;> cases q.rowOffset <;> cases dialect <;> rfl

theorem readWindow_written (dialect : Dialect) (q : QueryOperation) {locking : List Token}
    (hlocking : locking = [] ∨ ∃ text, locking = [.locking text]) :
    readWindow (limitTokens dialect q ++ offsetTokens dialect q ++ locking) =
        some (windowOf dialect q) ∧
      readTail (limitTokens dialect q ++ offsetTokens dialect q ++ locking) =
        some (none, windowOf dialect q) := by
  unfold limitTokens offsetTokens windowOf topOf
  rcases hlocking with rfl | ⟨text, rfl⟩ <;> cases q.rowLimit <;> cases q.rowOffset <;>
    cases dialect <;> exact ⟨rfl, rfl⟩

theorem readTail_written (dialect : Dialect) (q : QueryOperation) (orderBy : Option String)
    {locking : List Token} (hlocking : locking = [] ∨ ∃ text, locking = [.locking text]) :
    readTail (orderBy.toList.map .orderBy ++
        (limitTokens dialect q ++ offsetTokens dialect q ++ locking)) =
      some (orderBy, windowOf dialect q) := by
  obtain ⟨hwindow, htail⟩ := readWindow_written dialect q hlocking
  cases orderBy with
  | none => exact htail
  | some text =>
    show (readWindow (limitTokens dialect q ++ offsetTokens dialect q ++ locking)).map _ = _
    rw [hwindow]
    rfl

/-- What follows the operations starts none. -/
def NoOperation (rest : List Token) : Prop :=
  ∀ operator all more, rest ≠ .setOperator operator all :: more

theorem readOperations_written {sets : List QuerySetOperation} {operations : List (List Token)}
    {rest : List Token} (hrest : NoOperation rest)
    (h : List.Forall₂ (OperationText clauses dialect encode) sets operations) :
    ∃ steps : List (Step (List Token)),
      readOperations (operations.flatten ++ rest) = some (steps, rest) ∧
      List.Forall₂ (fun set step => step.shape = (meaning set.operator, set.all) ∧
        Renders clauses dialect encode set.query step.operand) sets steps := by
  induction h with
  | nil =>
    refine ⟨[], ?_, .nil⟩
    rw [readOperations.eq_def]
    split
    next operator all more heq => exact absurd heq (hrest operator all _)
    next => rfl
  | @cons set text sets operations hfirst _ ih =>
    obtain ⟨operand, hoperand, hrenders, rfl⟩ := hfirst
    obtain ⟨steps, hsteps, hlists⟩ := ih
    refine ⟨⟨meaning set.operator, set.all, operand⟩ :: steps, ?_, .cons ⟨rfl, hrenders⟩ hlists⟩
    have htokens : (operationTokens set operand :: operations).flatten ++ rest =
        .setOperator set.operator set.all :: .openParen ::
          (operand ++ .closeParen :: (operations.flatten ++ rest)) := by
      simp [operationTokens]
    rw [htokens, readOperations]
    split
    next hnone =>
      rw [closing_group hoperand] at hnone
      cases hnone
    next operand' rest' hsome =>
      rw [closing_group hoperand] at hsome
      cases hsome
      rw [hsteps]
      rfl

/-- **The text of a query is read as what the query lists, but for its `TOP`.** -/
theorem read_written {tokens : List Token} (w : Written clauses dialect encode q tokens) :
    ∃ listing, Lists clauses dialect encode q listing ∧
      read tokens =
        some ⟨{ listing with window := windowOf dialect q }, topOf dialect q⟩ := by
  have htail := readTail_written dialect q w.orderBy w.locking_eq
  have hrest : NoOperation (w.orderBy.toList.map .orderBy ++
      (limitTokens dialect q ++ offsetTokens dialect q ++ w.locking)) := by
    intro operator all more heq
    rw [heq] at htail
    cases htail
  obtain ⟨steps, hsteps, hlists⟩ := readOperations_written hrest w.operations_eq
  refine ⟨⟨(w.head, w.body), steps, w.orderBy, ⟨q.rowOffset, q.rowLimit⟩⟩,
    ⟨w.head_eq, w.body_eq, hlists, w.orderBy_eq, rfl⟩, ?_⟩
  have htokens : tokens = [.clause w.head] ++ topTokens dialect q ++ [.clause w.body] ++
      (w.operations.flatten ++ (w.orderBy.toList.map .orderBy ++
        (limitTokens dialect q ++ offsetTokens dialect q ++ w.locking))) := by
    refine w.tokens_eq.trans ?_
    simp only [List.append_assoc]
  simp only [read, htokens, readBlock_written, Option.bind_eq_bind, Option.bind_some, hsteps, htail]

end Written

/-! ## What the text means -/

section Meaning

variable {ρ : Type} [DecidableEq ρ]

/-- The rows of a window, the offset first. -/
def Window.rows (window : Window) (rows : List ρ) : List ρ :=
  let rows := rows.drop (window.offset.elim 0 UInt64.toNat)
  match window.limit with
  | some limit => rows.take limit.toNat
  | none => rows

/-- What the texts yield: the block its rows in the order they come, the operand at a place its
rows, and an ordering some order of the rows it is given. -/
structure Yields (ρ : Type) where
  block : String × String → List ρ
  operand : Nat → List Token → Multiset ρ
  sort : Option String → Multiset ρ → List ρ
  sort_eq : ∀ orderBy rows, (sort orderBy rows : Multiset ρ) = rows

/-- The operations on the rows their operands yield. -/
def Yields.steps (yields : Yields ρ) (operations : List (Step (List Token))) :
    List (Step (Multiset ρ)) :=
  operations.mapIdx fun i step => step.on (yields.operand i step.operand)

/-- The rows of a statement, by the grammar.  Alone, a block takes its `TOP` rows in the order
asked for; before operations, in the order they come. -/
def Statement.rows (s : Statement) (yields : Yields ρ) : List ρ :=
  let block := yields.block s.block
  let steps := yields.steps s.operations
  match s.top with
  | none => s.window.rows (yields.sort s.orderBy (precedenceValue block steps))
  | some limit =>
    if s.operations = [] then s.window.rows ((yields.sort s.orderBy block).take limit.toNat)
    else s.window.rows (yields.sort s.orderBy (precedenceValue (block.take limit.toNat) steps))

/-- What a query asks for: its operations one after the other, then its ordering and window. -/
def Listing.rows (listing : Listing) (yields : Yields ρ) : List ρ :=
  listing.window.rows (yields.sort listing.orderBy
    (leftValue (yields.block listing.block) (yields.steps listing.operations)))

end Meaning

/-- Whatever its texts yield, the statement means what is listed. -/
def MeansAsListed (s : Statement) (listing : Listing) : Prop :=
  ∀ (ρ : Type) [DecidableEq ρ] (yields : Yields ρ), s.rows yields = listing.rows yields

/-- When the text means what the query lists.  A `TOP` before operations limits the first block
only; without it an `INTERSECT` may not follow a `UNION` or an `EXCEPT`, unless no row is asked
for. -/
def Faithful (dialect : Dialect) (q : QueryOperation) : Prop :=
  match topOf dialect q with
  | some limit => q.setOperations = [] ∨ limit = 0 ∧ ∀ set ∈ q.setOperations, set.operator ≠ .union
  | none => q.rowLimit = some 0 ∨ IntersectsFirst (q.setOperations.map fun set =>
      Step.mk (meaning set.operator) set.all ())

/-! ## Where the two readings agree -/

section Proof

variable {listing : Listing}

theorem length_sort {ρ : Type} (yields : Yields ρ) (orderBy : Option String) (rows : Multiset ρ) :
    (yields.sort orderBy rows).length = rows.card := by
  rw [← Multiset.coe_card, yields.sort_eq]

/-- All rows below a bound are at least as many. -/
theorem le_card_of_range {n : Nat} {rows : Multiset Nat} (h : ∀ x < n, x ∈ rows) :
    n ≤ rows.card := by
  have hle : Multiset.range n ≤ rows :=
    (Multiset.le_iff_subset (Multiset.nodup_range n)).2 fun x hx => h x (Multiset.mem_range.1 hx)
  simpa using Multiset.card_le_card hle

/-- Texts that yield given rows. -/
noncomputable def yieldsOf (block : List Nat) (operands : List (Multiset Nat)) : Yields Nat where
  block _ := block
  operand i _ := operands.getD i 0
  sort _ := Multiset.toList
  sort_eq _ := Multiset.coe_toList

theorem steps_yieldsOf {block : List Nat} {steps : List (Step (Multiset Nat))}
    {operations : List (Step (List Token))} (h : steps.map Step.shape = operations.map Step.shape) :
    (yieldsOf block (steps.map Step.operand)).steps operations = steps := by
  have hlength : steps.length = operations.length := by simpa using congrArg List.length h
  refine List.ext_getElem (by simp [Yields.steps, hlength]) fun i hi hi' => ?_
  have hlt : i < operations.length := hlength ▸ hi'
  have hshape : steps[i].shape = operations[i].shape := by
    have := congrArg (·[i]?) h
    simpa [hi', hlt] using this
  have hoperand : (steps.map Step.operand).getD i 0 = steps[i].operand := by
    simp [List.getD, hi']
  simp only [Yields.steps, List.getElem_mapIdx]
  show Step.mk operations[i].operator operations[i].all ((steps.map Step.operand).getD i 0) = _
  have hoperator : operations[i].operator = steps[i].operator := (congrArg Prod.fst hshape).symm
  have hflag : operations[i].all = steps[i].all := (congrArg Prod.snd hshape).symm
  rw [hoperand, hoperator, hflag]

theorem shapes_steps {ρ : Type} (yields : Yields ρ) (operations : List (Step (List Token))) :
    (yields.steps operations).map Step.shape = operations.map Step.shape := by
  refine List.ext_getElem (by simp [Yields.steps]) fun i hi hi' => ?_
  simp [Yields.steps, Step.on, Step.shape]

/-- Without a `TOP`. -/
theorem means_iff_of_window : MeansAsListed ⟨listing, none⟩ listing ↔
    listing.window.limit = some 0 ∨ IntersectsFirst listing.operations := by
  constructor
  · intro h
    by_contra hbad
    rw [not_or] at hbad
    obtain ⟨hlimit, hfirst⟩ := hbad
    -- one row more than the offset skips
    generalize hn : listing.window.offset.elim 0 UInt64.toNat = n
    obtain ⟨steps, hshapes, hleft, hprecedence⟩ :=
      exists_readings_differ _ hfirst (Multiset.range (n + 1))
    have heq := h Nat (yieldsOf (List.range (n + 1)) (steps.map Step.operand))
    have hcard := le_card_of_range fun x hx => hprecedence x (Multiset.mem_range.2 hx)
    have hblock : ((List.range (n + 1) : List Nat) : Multiset Nat) = Multiset.range (n + 1) := rfl
    simp only [Statement.rows, Listing.rows, Window.rows, steps_yieldsOf hshapes, hn] at heq
    simp only [yieldsOf, hblock, hleft] at heq
    have hlength := congrArg List.length heq
    cases hq : listing.window.limit with
    | none =>
      rw [hq] at hlength
      simp only [List.length_drop, Multiset.length_toList, Multiset.card_zero] at hlength
      omega
    | some limit =>
      have hpos : limit.toNat ≠ 0 := by
        intro hzero
        have hlimit' : limit = 0 := UInt64.toNat_inj.1 hzero
        exact hlimit (by rw [hq, hlimit'])
      rw [hq] at hlength
      simp only [List.length_take, List.length_drop, Multiset.length_toList,
        Multiset.card_zero] at hlength
      omega
  · rintro h ρ _ yields
    simp only [Statement.rows, Listing.rows]
    rcases h with hlimit | hfirst
    · simp [Window.rows, hlimit]
    · rw [precedenceValue_eq_leftValue _ _
        ((intersectsFirst_congr (shapes_steps yields listing.operations)).2 hfirst)]

/-- Operands that take away the rows below `n` and keep `n`. -/
def lastRow (n : Nat) : SetOperator → Multiset Nat
  | .union => 0
  | .intersect => {n}
  | .except => Multiset.range n

/-- Operands that bring the rows below `n` and take none away. -/
def fullRows (n : Nat) : SetOperator → Multiset Nat
  | .union | .intersect => Multiset.range n
  | .except => 0

/-- Operations on rows chosen by the operator. -/
def onRows (operations : List (Step (List Token))) (rows : SetOperator → Multiset Nat) :
    List (Step (Multiset Nat)) :=
  operations.map fun step => step.on (rows step.operator)

theorem shapes_onRows (operations : List (Step (List Token))) (rows : SetOperator → Multiset Nat) :
    (onRows operations rows).map Step.shape = operations.map Step.shape := by
  simp [onRows, Step.on, Step.shape]

variable {operations : List (Step (List Token))}

theorem no_union {ρ : Type} {yields : Yields ρ} (h : ∀ step ∈ operations, step.operator ≠ .union)
    (step : Step (Multiset ρ)) (hstep : step ∈ yields.steps operations) :
    step.operator ≠ .union := by
  obtain ⟨i, hi, rfl⟩ := List.mem_mapIdx.1 hstep
  exact h _ (List.getElem_mem hi)

theorem left_last (hne : operations ≠ []) (h : ∀ step ∈ operations, step.operator ≠ .union)
    (n : Nat) :
    n ∈ leftValue (List.range (n + 1) : List Nat) (onRows operations (lastRow n)) ∧
      ∀ x ∈ leftValue (List.range (n + 1) : List Nat) (onRows operations (lastRow n)), x = n := by
  have hoperand : ∀ step ∈ onRows operations (lastRow n),
      step.operator ≠ .union ∧ step.operand = lastRow n step.operator := by
    intro step hstep
    obtain ⟨step, hmem, rfl⟩ := List.mem_map.1 hstep
    exact ⟨h step hmem, rfl⟩
  constructor
  · refine mem_leftValue_of (fun step hstep => ?_) (by simp)
    obtain ⟨hunion, hrows⟩ := hoperand step hstep
    rw [hrows]
    cases hop : step.operator with
    | union => exact absurd hop hunion
    | intersect | except => simp [lastRow]
  · intro x hx
    cases hsteps : onRows operations (lastRow n) with
    | nil => exact absurd (List.map_eq_nil_iff.1 hsteps) hne
    | cons step rest =>
      obtain ⟨hunion, hrows⟩ := hoperand step (hsteps ▸ List.mem_cons_self ..)
      rw [hsteps] at hx
      have hx : x ∈ leftValue (combine step.operator step.all (List.range (n + 1) : List Nat)
          step.operand) rest := hx
      rcases mem_of_mem_leftValue hx with hx | ⟨step', hstep', hop, -⟩
      · rw [hrows] at hx
        cases hop : step.operator with
        | union => exact absurd hop hunion
        | intersect =>
          rw [hop, mem_intersect] at hx
          simpa [lastRow] using hx.2
        | except =>
          rw [hop] at hx
          have hlt := mem_of_mem_except hx
          have hge : ¬ x < n := fun hxn =>
            not_mem_except (Multiset.coe_nodup.2 List.nodup_range) (Multiset.mem_range.2 hxn) hx
          simp at hlt
          omega
      · exact absurd hop (hoperand step' (hsteps ▸ List.mem_cons_of_mem step hstep')).1

theorem full_mem {n x : Nat} {block : Multiset Nat}
    (h : ¬ ∀ step ∈ operations, step.operator ≠ .union) (hx : x < n) :
    x ∈ precedenceValue block (onRows operations (fullRows n)) := by
  refine mem_precedence_of (fun step hstep => ?_) (.inr ?_)
  · obtain ⟨step, -, rfl⟩ := List.mem_map.1 hstep
    cases hop : step.operator <;> simp [Step.on, hop, fullRows, hx]
  · simp only [not_forall, not_not] at h
    obtain ⟨step, hstep, hop⟩ := h
    exact ⟨_, List.mem_map_of_mem hstep, hop⟩

theorem mem_take_of_forall_eq {α : Type} {l : List α} {x : α} {n : Nat} (hmem : x ∈ l)
    (hall : ∀ y ∈ l, y = x) (hn : 0 < n) : x ∈ l.take n := by
  cases l with
  | nil => cases hmem
  | cons y rest =>
    obtain ⟨k, rfl⟩ := Nat.exists_eq_succ_of_ne_zero (Nat.pos_iff_ne_zero.1 hn)
    rw [List.take_succ_cons, hall y (List.mem_cons_self ..)]
    exact List.mem_cons_self ..

/-- A `TOP` before operations. -/
theorem means_iff_of_top {limit : UInt64} (hwindow : listing.window = ⟨none, some limit⟩) :
    MeansAsListed ⟨{ listing with window := ⟨none, none⟩ }, some limit⟩ listing ↔
      listing.operations = [] ∨
        limit = 0 ∧ ∀ step ∈ listing.operations, step.operator ≠ .union := by
  have hall : ∀ {ρ : Type} (rows : List ρ), (Window.mk none none).rows rows = rows := fun _ => rfl
  have htake : ∀ {ρ : Type} (rows : List ρ),
      listing.window.rows rows = rows.take limit.toNat := by
    intro ρ rows
    rw [hwindow]
    rfl
  constructor
  · intro h
    by_contra hbad
    rw [not_or, not_and] at hbad
    obtain ⟨hne, hunion⟩ := hbad
    -- what the two readings say on rows chosen by the operator
    have hrows : ∀ (block : List Nat) (rows : SetOperator → Multiset Nat),
        (precedenceValue (block.take limit.toNat : List Nat)
          (onRows listing.operations rows)).toList =
        ((leftValue (block : Multiset Nat) (onRows listing.operations rows)).toList).take
          limit.toNat := by
      intro block rows
      have heq := h Nat (yieldsOf block ((onRows listing.operations rows).map Step.operand))
      simp only [Statement.rows, Listing.rows, if_neg hne, hall, htake,
        steps_yieldsOf (shapes_onRows listing.operations rows)] at heq
      exact heq
    by_cases hnone : ∀ step ∈ listing.operations, step.operator ≠ .union
    · -- the rows `TOP` keeps are all taken away; the next one stays
      have hpos : 0 < limit.toNat := by
        rcases Nat.eq_zero_or_pos limit.toNat with hzero | hpos
        · exact absurd hnone (hunion (UInt64.toNat_inj.1 hzero))
        · exact hpos
      obtain ⟨hmem, hlast⟩ := left_last hne hnone limit.toNat
      have heq := hrows (List.range (limit.toNat + 1)) (lastRow limit.toNat)
      have hblock : (List.range (limit.toNat + 1)).take limit.toNat = List.range limit.toNat := by
        rw [List.take_range, Nat.min_eq_left (Nat.le_succ _)]
      rw [hblock] at heq
      have hfirst := mem_take_of_forall_eq (Multiset.mem_toList.2 hmem)
        (fun x hx => hlast x (Multiset.mem_toList.1 hx)) hpos
      rw [← heq, Multiset.mem_toList] at hfirst
      rcases mem_of_mem_precedence hfirst with hrange | ⟨step, hstep, hop, -⟩
      · simp at hrange
      · obtain ⟨step, hmem, rfl⟩ := List.mem_map.1 hstep
        exact hnone step hmem hop
    · -- a `UNION` brings one row more than the limit
      have hlength := congrArg List.length (hrows [] (fullRows (limit.toNat + 1)))
      have hcard : limit.toNat + 1 ≤ (precedenceValue (([] : List Nat) : Multiset Nat)
          (onRows listing.operations (fullRows (limit.toNat + 1)))).card :=
        le_card_of_range fun x hx => full_mem hnone hx
      rw [List.take_nil, Multiset.length_toList, List.length_take] at hlength
      omega
  · rintro (hnil | ⟨rfl, hnone⟩) ρ _ yields
    · simp only [Statement.rows, Listing.rows, hnil, if_true, hall, htake]
      rfl
    · have hzero : precedenceValue ((yields.block listing.block).take 0 : List ρ)
          (yields.steps listing.operations) = 0 := by
        refine Multiset.eq_zero_of_forall_notMem fun x hx => ?_
        rcases mem_of_mem_precedence hx with hx | ⟨step, hstep, hop, -⟩
        · simp at hx
        · exact no_union hnone step hstep hop
      have hsorted : yields.sort listing.orderBy 0 = [] := by
        have := length_sort yields listing.orderBy 0
        simpa using this
      simp only [Statement.rows, Listing.rows, hall, htake]
      split
      next => simp
      next =>
        show yields.sort listing.orderBy (precedenceValue
          ((yields.block listing.block).take 0 : List ρ) (yields.steps listing.operations)) = _
        rw [hzero, hsorted]
        rfl

end Proof

/-! ## Top theorem -/

section Listed

variable {σ : Type} {clauses : ClauseRenderer σ} {dialect : Dialect} {encode : Bool}
  {q : QueryOperation} {listing : Listing}

theorem Lists.shapes_eq (h : Lists clauses dialect encode q listing) :
    listing.operations.map Step.shape =
      q.setOperations.map fun set => (meaning set.operator, set.all) := by
  have hoperations := h.operations
  generalize q.setOperations = sets at hoperations ⊢
  generalize listing.operations = steps at hoperations ⊢
  induction hoperations with
  | nil => rfl
  | cons hfirst _ ih => rw [List.map_cons, List.map_cons, ih, hfirst.1]

theorem Lists.intersectsFirst_iff (h : Lists clauses dialect encode q listing) :
    IntersectsFirst listing.operations ↔ IntersectsFirst (q.setOperations.map fun set =>
      Step.mk (meaning set.operator) set.all ()) := by
  refine intersectsFirst_congr (h.shapes_eq.trans ?_)
  simp [Step.shape, Function.comp_def]

theorem Lists.operations_eq_nil (h : Lists clauses dialect encode q listing) :
    listing.operations = [] ↔ q.setOperations = [] := by
  rw [← List.map_eq_nil_iff (f := Step.shape), h.shapes_eq, List.map_eq_nil_iff]

theorem Lists.no_union_iff (h : Lists clauses dialect encode q listing) :
    (∀ step ∈ listing.operations, step.operator ≠ .union) ↔
      ∀ set ∈ q.setOperations, set.operator ≠ .union := by
  have hmeaning : ∀ set : QuerySetOperation,
      meaning set.operator ≠ .union ↔ set.operator ≠ .union := by
    intro set
    cases set.operator <;> simp [meaning]
  have hleft := List.forall_mem_map (l := listing.operations) (f := Step.shape)
    (P := fun p => p.1 ≠ .union)
  rw [h.shapes_eq, List.forall_mem_map] at hleft
  simp only [hmeaning] at hleft
  exact hleft.symm

end Listed

/-- **The text of a query means what the query lists exactly when it is `Faithful`**: it is a
statement of the grammar, and whatever its texts yield, the server computes the listed operations
from left to right and applies the listed ordering and window to their result. -/
theorem renderQuery_denotes_iff {σ : Type} (clauses : ClauseRenderer σ) (dialect : Dialect)
    (encode : Bool) (q : QueryOperation) (st st' : σ) (tokens : List Token)
    (h : renderQueryInner clauses dialect encode q st = .ok (tokens, st')) :
    ∃ s listing, read tokens = some s ∧ Lists clauses dialect encode q listing ∧
      (MeansAsListed s listing ↔ Faithful dialect q) := by
  obtain ⟨w⟩ := renderQueryInner_written q st st' tokens h
  obtain ⟨listing, hlists, hread⟩ := read_written w
  refine ⟨_, listing, hread, hlists, ?_⟩
  unfold Faithful windowOf
  cases hlimit : topOf dialect q with
  | none =>
    have hwindow : { listing with window := ⟨q.rowOffset, q.rowLimit⟩ } = listing := by
      rw [← hlists.window]
    show MeansAsListed ⟨{ listing with window := ⟨q.rowOffset, q.rowLimit⟩ }, none⟩ listing ↔ _
    rw [hwindow, means_iff_of_window, hlists.intersectsFirst_iff, hlists.window]
  | some limit =>
    have hsplit := hlimit
    unfold topOf at hsplit
    split at hsplit
    next hoffset =>
      have hwindow := hlists.window
      rw [hoffset.2, hsplit] at hwindow
      show MeansAsListed ⟨{ listing with window := ⟨none, none⟩ }, some limit⟩ listing ↔ _
      rw [means_iff_of_top hwindow, hlists.operations_eq_nil, hlists.no_union_iff]
    next => cases hsplit

/-- Clauses of fixed text. -/
def plainClauses : ClauseRenderer Unit where
  head _ := pure "SELECT "
  body _ _ := pure "a FROM t"
  ordering _ := pure "a"
  locking _ _ := pure ""
  enter _ _ := ()
  leave _ := ()

/-- `SELECT a FROM t` with operations on more of the same. -/
def plainQuery (operators : List QuerySetOperator) : QueryOperation :=
  let block (sets : List QuerySetOperation) : QueryOperation :=
    { commonTableExpressions := [], source := none, derivedSource := none
      projection := [⟨.column ⟨none, "a"⟩, none⟩], joins := [], filter := none, groupBy := []
      having := none, orderBy := [], distinct := false, distinctOn := [], setOperations := sets
      rowLimit := none, rowOffset := none, locking := none, declaredCrs := [] }
  block (operators.map fun operator => ⟨operator, false, block []⟩)

def plainText (operators : List QuerySetOperator) : List Token :=
  [Token.clause "SELECT ", Token.clause "a FROM t"] ++ operators.flatMap fun operator =>
    [Token.setOperator operator false, Token.openParen, Token.clause "SELECT ",
      Token.clause "a FROM t", Token.closeParen]

theorem render_block : renderQueryInner plainClauses .postgres false (plainQuery []) () =
    .ok ([.clause "SELECT ", .clause "a FROM t"], ()) := by
  rw [renderQueryInner]
  rfl

theorem render_plain (first second : QuerySetOperator) :
    renderQueryInner plainClauses .postgres false (plainQuery [first, second]) () =
      .ok (plainText [first, second], ()) := by
  have hblock : renderQueryInner plainClauses .postgres false (plainQuery []) = fun _ =>
      .ok ([.clause "SELECT ", .clause "a FROM t"], ()) := funext fun _ => render_block
  rw [renderQueryInner]
  have hattach : ∀ f : { set // set ∈ (plainQuery [first, second]).setOperations } →
      StateT Unit Result (List Token),
      (plainQuery [first, second]).setOperations.attach.mapM f =
        (f ⟨⟨first, false, plainQuery []⟩, by simp [plainQuery]⟩ >>= fun a =>
          f ⟨⟨second, false, plainQuery []⟩, by simp [plainQuery]⟩ >>= fun b => pure [a, b]) := by
    intro f
    have hlist : (plainQuery [first, second]).setOperations.attach =
        [⟨⟨first, false, plainQuery []⟩, by simp [plainQuery]⟩,
          ⟨⟨second, false, plainQuery []⟩, by simp [plainQuery]⟩] := rfl
    rw [hlist]
    simp
  rw [hattach]
  simp only [hblock]
  rfl

/-- What `SELECT a FROM t` lists with two operations on more of the same. -/
def plainListing (first second : QuerySetOperator) : Listing where
  block := ("SELECT ", "a FROM t")
  operations := [⟨meaning first, false, plainText []⟩, ⟨meaning second, false, plainText []⟩]
  orderBy := none
  window := ⟨none, none⟩

/-- `A INTERSECT B UNION C` means what it lists. -/
theorem renderQuery_intersect_union :
    ∃ s listing, read (plainText [.intersect, .union]) = some s ∧
      Lists plainClauses .postgres false (plainQuery [.intersect, .union]) listing ∧
      (MeansAsListed s listing ↔ Faithful .postgres (plainQuery [.intersect, .union])) :=
  renderQuery_denotes_iff plainClauses .postgres false (plainQuery [.intersect, .union]) () ()
    (plainText [.intersect, .union]) (render_plain _ _)

/-- **`A UNION B INTERSECT C` is read as `A UNION (B INTERSECT C)`**: with a row in `A` and none
in `B` and `C`, the server returns it where the list leaves nothing. -/
theorem union_intersect_misread :
    ∃ s, renderQueryInner plainClauses .postgres false (plainQuery [.union, .intersect]) () =
        .ok (plainText [.union, .intersect], ()) ∧
      read (plainText [.union, .intersect]) = some s ∧
      Lists plainClauses .postgres false (plainQuery [.union, .intersect])
        (plainListing .union .intersect) ∧
      ¬ MeansAsListed s (plainListing .union .intersect) := by
  refine ⟨⟨plainListing .union .intersect, none⟩, render_plain _ _, ?_, ?_, fun hmeans => ?_⟩
  · simp [read, plainText, plainListing, readBlock, readOperations, closing, Token.depthAfter,
      readTail, readWindow, meaning]
  · have hoperand : Renders plainClauses .postgres false (plainQuery []) (plainText []) :=
      ⟨(), (), render_block⟩
    exact ⟨⟨(), (), rfl⟩, ⟨(), (), rfl⟩, .cons ⟨rfl, hoperand⟩ (.cons ⟨rfl, hoperand⟩ .nil), rfl, rfl⟩
  · have heq := hmeans Nat ⟨fun _ => [7], fun _ _ => 0, fun _ rows => rows.sort (· ≤ ·),
      fun _ rows => Multiset.sort_eq rows (· ≤ ·)⟩
    simp [Statement.rows, Listing.rows, plainListing, Yields.steps, Step.on, Window.rows,
      precedenceValue, byPrecedence, additive, leftToRight, leftValue, Step.isIntersect,
      SetTree.value, combine, meaning] at heq

end Plenora.Sql
