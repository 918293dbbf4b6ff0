import Plenora.Lib.Scanning
import Plenora.Core.NativeQueryPolicy

/-!
# The MySQL caller policy

The SQL of a caller is one statement, and in a transaction scope one of the
verbs that cannot end it.  The scanner reads with backslash escapes and without
`ANSI_QUOTES`, and refuses executable comments.

    enforceMysqlTransactionSql sql : Result Unit
-/

namespace Plenora.Core.MysqlCallerPolicy

open Plenora.Lib Plenora.Lib.Scanning Plenora.Core.NativeQueryPolicy

/-! ## The scanner -/

inductive Lexeme where
  | token (text : String)
  | semicolon
  deriving DecidableEq, Repr

def upper (text : List Char) : String := String.ofList (text.map Char.toUpper)

def asciiUserName (name : String) : Bool :=
  name ≠ "" && name.toList.all fun c => c.isAlphanum || c = '_' || c = '$' || c = '.'

def isWordByte (c : Char) : Bool := c.isAlphanum || c = '_' || c = '$'

def isSpace (c : Char) : Bool := isAsciiWhitespace c || c = '\x0b'

/-- A `#` or `-- ` comment opens here. -/
def lineComment : List Char → Bool
  | '#' :: _ => true
  | '-' :: '-' :: rest => rest.head?.all fun c => isAsciiWhitespace c || isAsciiControl c
  | _ => false

/-- A line comment goes on here. -/
def inLine (c : Char) : Bool := c ≠ '\r' && c ≠ '\n'

def blockComment : List Char → Bool
  | '/' :: '*' :: _ => true
  | _ => false

def executableComment : List Char → Bool
  | '/' :: '*' :: '!' :: _ => true
  | '/' :: '*' :: 'M' :: '!' :: _ => true
  | _ => false

/-- The name of a quoted token; any other literal is not read further. -/
def quotedName (text : List Char) : String :=
  if asciiUserName (upper text) then upper text else "<quoted>"

/-- One token for each byte of the character. -/
def byteTokens (c : Char) : List Lexeme :=
  (String.utf8EncodeChar c).map fun byte => .token (String.singleton (Char.ofNat byte.toNat))

/-- A pass of the loop of `statements`. -/
def step : Step DatabaseError Char Lexeme
  | [] => .ok ([], [])
  | c :: rest =>
    if isSpace c then .ok ([], rest)
    else if lineComment (c :: rest) then
      .ok ([], (c :: rest).dropWhile inLine)
    else if blockComment (c :: rest) then
      if executableComment (c :: rest) then .error lexicalError
      else do
        let rest ← commentEnd false 1 (rest.drop 1)
        .ok ([], rest)
    else if c = ';' then .ok ([.semicolon], rest)
    else if c = '\'' || c = '"' || c = '\x60' then do
      let (text, rest) ← quotedEnd c (c ≠ '\x60') rest
      .ok ([.token (quotedName text)], rest)
    else if isWordByte c then
      .ok ([.token (upper (c :: rest.takeWhile isWordByte))], rest.dropWhile isWordByte)
    else .ok (byteTokens c, rest)

def isSemicolon : Lexeme → Bool
  | .semicolon => true
  | .token _ => false

def Lexeme.text? : Lexeme → Option String
  | .token text => some text
  | .semicolon => none

/-- The statements of a text, each as its tokens; the empty ones do not count. -/
def statements (sql : List Char) : Result (List (List String)) := do
  let lexemes ← scan step sql
  .ok ((splitAt isSemicolon [] lexemes).map (·.filterMap Lexeme.text?))

/-! ## The policy -/

def userAssignmentsError : DatabaseError :=
  .invalidPlan "SET MySQL/MariaDB richiede esclusivamente variabili utente ASCII"

/-- To the comma that ends a value, or to the end: the open parentheses and what is left. -/
def valueEnd : Nat → List String → Result (Nat × List String)
  | depth, [] => .ok (depth, [])
  | depth, token :: tokens =>
    if token = "(" then valueEnd (depth + 1) tokens
    else if token = ")" then
      if depth = 0 then .error userAssignmentsError else valueEnd (depth - 1) tokens
    else if token = "," ∧ depth = 0 then .ok (depth, token :: tokens)
    else valueEnd depth tokens

/-- The loop of `user_assignments`; a pass consumes tokens. -/
def assignmentsWithin : Nat → List String → Result Unit
  | 0, _ => .error userAssignmentsError
  | fuel + 1, tokens => do
    failIf (tokens[0]? ≠ some "@" ∨ tokens[1]?.any asciiUserName = false) userAssignmentsError
    let rest := if tokens[2]? = some ":" then tokens.drop 3 else tokens.drop 2
    failIf (rest[0]? ≠ some "=") userAssignmentsError
    let value := rest.drop 1
    let (depth, rest) ← valueEnd 0 value
    failIf (rest.length = value.length ∨ depth ≠ 0) userAssignmentsError
    match rest with
    | [] => .ok ()
    | _ :: rest => assignmentsWithin fuel rest

def userAssignments (tokens : List String) : Result Unit :=
  assignmentsWithin (tokens.length + 1) tokens

/-- `enforce_mysql_caller_sql`. -/
def enforceMysqlCallerSql (sql : List Char) : Result Unit := do
  let statements ← statements sql
  match statements with
  | [tokens] => do
    failIf (tokens.head? = some "USE") (.invalidPlan "USE non ammesso nello SQL del chiamante")
    if tokens.head? = some "SET" then userAssignments tokens.tail else .ok ()
  | _ => .error (.invalidPlan "richiesto un solo statement MySQL/MariaDB")

/-- The verbs of the transaction scope. -/
def allowed : List String :=
  ["SELECT", "INSERT", "UPDATE", "DELETE", "REPLACE", "WITH", "VALUES", "TABLE", "DO", "SET",
    "SHOW", "EXPLAIN", "DESCRIBE", "DESC"]

/-- `enforce_mysql_transaction_sql`. -/
def enforceMysqlTransactionSql (sql : List Char) : Result Unit := do
  enforceMysqlCallerSql sql
  let statements ← statements sql
  let tokens := (statements.headD []).dropWhile (· = "(")
  let verb := tokens.headD ""
  failIf (verb ∈ ["EXPLAIN", "DESCRIBE", "DESC"] ∧ tokens[1]? = some "ANALYZE")
    (.invalidPlan "EXPLAIN ANALYZE non ammesso nel transaction scope")
  failIf (verb ∉ allowed)
    (.invalidPlan "statement MySQL/MariaDB non ammesso nel transaction scope")

end Plenora.Core.MysqlCallerPolicy
