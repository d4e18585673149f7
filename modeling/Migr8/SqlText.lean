import Migr8.Characters
import Migr8.Errors
import Migr8.Lib.Scanning

namespace Migr8.SqlText

open Characters Errors Lib.Scanning

/-- What the scanner raises. Only the first is the source error; the others are
those of Python's own indexing and searching. -/
inductive Failure where
  | syntaxError (message : String)
  | indexError
  | valueError
  deriving DecidableEq, Repr

def altQuotePairs : List (Char × Char) := [('[', ']'), ('{', '}'), ('(', ')'), ('<', '>')]

def sqlplusCommands : List String :=
  ["@", "@@", "ACCEPT", "APPEND", "ARCHIVE", "ATTRIBUTE", "BREAK", "BTITLE", "CHANGE", "CLEAR", "COLUMN",
    "COMPUTE", "CONNECT", "COPY", "DEFINE", "DESC", "DESCRIBE", "DISCONNECT", "EDIT", "EXECUTE", "EXIT", "GET",
    "HELP", "HOST", "INPUT", "LIST", "PASSWORD", "PAUSE", "PRINT", "PROMPT", "QUIT", "RECOVER", "REMARK",
    "REPFOOTER", "REPHEADER", "RUN", "SAVE", "SET", "SHOW", "SHUTDOWN", "SPOOL", "STARTUP", "STORE", "TIMING",
    "TTITLE", "UNDEFINE", "VARIABLE", "WHENEVER", "XQUERY"]

inductive TokenKind where
  | word | number | string | quotedIdent | punct | comment
  deriving DecidableEq, Repr

/-- `text` is the exact source text, quotes and comment markers included. -/
structure Token where
  kind : TokenKind
  text : Text
  start : Nat
  stop : Nat
  deriving DecidableEq, Repr

def Token.significant (t : Token) : Bool := t.kind ≠ .comment

def Token.isPunct (t : Token) (c : Char) : Bool := t.kind = .punct && t.text = [c]

section Tokenize

variable (u : Unicode)

def Token.upper (t : Token) : String := String.ofList (u.upper t.text)

def isIdentStart (c : Char) : Bool := u.isAlpha c || c ∈ ['_', '$', '#', ':']

def isIdentPart (c : Char) : Bool := u.isAlnum c || c ∈ ['_', '$', '#']

def signOf : Text → Text
  | [] => []
  | c :: _ => if c = '+' ∨ c = '-' then [c] else []

def scanNumber (sql : Text) : Nat :=
  let index := (sql.takeWhile fun c => u.isDigit c || c = '.').length
  match sql.drop index with
  | [] => index
  | e :: rest =>
      if e = 'e' ∨ e = 'E' then
        let sign := signOf rest
        let digits := (rest.drop sign.length).takeWhile u.isDigit
        if digits = [] then index else index + 1 + sign.length + digits.length
      else index

def scanQuotedIdent (rest : Text) : Except Failure Nat :=
  match find ['"'] rest with
  | none => .error (.syntaxError "unterminated quoted identifier")
  | some n => .ok (n + 1)

/-- `'...'` after its opening quote, with the doubled-quote escape. -/
def scanPlainString : Text → Except Failure Nat
  | [] => .error (.syntaxError "unterminated string literal")
  | '\'' :: '\'' :: cs => (scanPlainString cs).map (· + 2)
  | '\'' :: _ => .ok 1
  | _ :: cs => (scanPlainString cs).map (· + 1)

def isTagChar (c : Char) : Bool := c.isAlphanum || c = '_'

/-- The name between the dollars, when the text after a `$` completes an opening tag. -/
def dollarTag (rest : Text) : Option Text :=
  let name := rest.takeWhile isTagChar
  if (rest.drop name.length).head? = some '$' ∧ name.head?.all (!·.isDigit) then some name else none

def tryScanDollarQuoted (rest : Text) : Except Failure (Option Nat) :=
  match dollarTag rest with
  | none => .ok none
  | some name =>
      let tag := '$' :: (name ++ ['$'])
      match find tag (rest.drop (name.length + 1)) with
      | none => .error (.syntaxError ("unterminated dollar-quoted string opened with " ++ String.ofList tag))
      | some n => .ok (some (name.length + 1 + n + tag.length))

def altCloser (opener : Char) : Char := (altQuotePairs.lookup opener).getD opener

/-- `<d>..<d>'` from its delimiter on. -/
def scanAltQuoted : Text → Except Failure Nat
  | [] => .error (.syntaxError "unterminated alternative-quoted literal")
  | opener :: body =>
      if opener ∈ [' ', '\t', '\r', '\n'] then
        .error (.syntaxError
          "alternative-quoted literal uses whitespace as its delimiter, which is not supported")
      else
        match find [altCloser opener, '\''] body with
        | none => .error (.syntaxError
            ("unterminated alternative-quoted literal opened with q'" ++ String.ofList [opener]))
        | some n => .ok (1 + n + 2)

/-- The `N'..'`, `Q'<d>..<d>'` and `NQ'<d>..<d>'` forms, as the number of characters
after the first. -/
def tryScanPrefixedString (c : Char) (rest : Text) : Except Failure (Option Nat) :=
  let upper := u.upper ((c :: rest).take 3)
  if ['N', 'Q', '\''].isPrefixOf upper then (scanAltQuoted (rest.drop 2)).map fun n => some (2 + n)
  else if ['Q', '\''].isPrefixOf upper then (scanAltQuoted (rest.drop 1)).map fun n => some (1 + n)
  else if ['N', '\''].isPrefixOf upper then (scanPlainString (rest.drop 1)).map fun n => some (1 + n)
  else .ok none

def tryScanLiteral (c : Char) (rest : Text) : Except Failure (Option Nat) := do
  if c = '$' then
    if let some n ← tryScanDollarQuoted rest then return some n
  tryScanPrefixedString u c rest

def nextPlain (c : Char) (rest : Text) : Option TokenKind × Nat :=
  if u.isDigit c ∨ (c = '.' ∧ rest.head?.any u.isDigit) then (some .number, scanNumber u (c :: rest) - 1)
  else if isIdentStart u c then (some .word, (rest.takeWhile (isIdentPart u)).length)
  else (some .punct, 0)

def literalOr (c : Char) (rest : Text) : Option Nat → Option TokenKind × Nat
  | some n => (some .string, n)
  | none => nextPlain u c rest

/-- One round of the loop of `tokenize`. -/
def next : Step Char TokenKind Failure := fun c rest =>
  if isGap c then .ok (none, 0)
  else if c = '-' ∧ rest.head? = some '-' then
    .ok (some .comment, (rest.takeWhile fun d => d ≠ '\n').length)
  else if c = '/' ∧ rest.head? = some '*' then
    match find ['*', '/'] (rest.drop 1) with
    | none => .error (.syntaxError "unterminated block comment")
    | some n => .ok (some .comment, 1 + n + 2)
  else if c = '"' then (scanQuotedIdent rest).map fun n => (some .quotedIdent, n)
  else if c = '\'' then (scanPlainString rest).map fun n => (some .string, n)
  else (tryScanLiteral u c rest).map (literalOr u c rest)

def locate : Nat → List (Piece Char TokenKind) → List Token
  | _, [] => []
  | start, p :: ps =>
      let stop := start + p.text.length
      match p.kind with
      | none => locate stop ps
      | some kind => ⟨kind, p.text, start, stop⟩ :: locate stop ps

def tokenize (sql : Text) : Except Failure (List Token) := (scan (next u) sql).map (locate 0)

def significantTokens (sql : Text) : Except Failure (List Token) :=
  (tokenize u sql).map fun tokens => tokens.filter (·.significant)

end Tokenize

section Classify

inductive StatementKind where
  | sql | plsqlBlock | plsqlDefinition
  deriving DecidableEq, Repr

def plsqlDefinitionObjects : List String := ["PROCEDURE", "FUNCTION", "PACKAGE", "TRIGGER", "TYPE"]

def createModifiers : List String := ["OR", "REPLACE", "EDITIONABLE", "NONEDITIONABLE", "EDITIONING"]

/-- A normalised statement. The sets are lists: only membership is ever asked. -/
structure Statement where
  text : Text
  kind : StatementKind
  lead : List String
  names : List String := []
  stringNames : List String := []
  cteVerb : String := ""
  cteBodyVerbs : List String := []
  deriving DecidableEq, Repr

def Statement.firstToken (s : Statement) : String := s.lead.headD ""

def identifierPositionWords : List String :=
  ["FROM", "INTO", "UPDATE", "JOIN", "TABLE", "VIEW", "INDEX", "TRIGGER", "EXISTS", "ON", "TO", "REFERENCES",
    "REPLACE", "ROLLBACK", "ABORT", "FAIL", "IGNORE"]

/-- `replace("''", "'")`. -/
def undouble : Text → Text
  | '\'' :: '\'' :: cs => '\'' :: undouble cs
  | c :: cs => c :: undouble cs
  | [] => []

def inner (t : Text) : Text := t.tail.dropLast

def stringValue (t : Token) : Option Text :=
  if t.kind = .string ∧ t.text.head? = some '\'' then some (undouble (inner t.text)) else none

variable (u : Unicode)

def words (tokens : List Token) : List String := (tokens.filter fun t => t.kind = .word).map (·.upper u)

def inIdentifierPosition (previous : Token) : Bool :=
  (previous.kind = .word && previous.upper u ∈ identifierPositionWords) || previous.isPunct '.'

def stringsInIdentifierPosition : List Token → List String
  | previous :: token :: rest =>
      let found := stringsInIdentifierPosition (token :: rest)
      match stringValue token with
      | some value => if inIdentifierPosition u previous then String.ofList (u.upper value) :: found else found
      | none => found
  | _ => []

def identifierWords (tokens : List Token) : List String :=
  words u tokens ++
    (tokens.filter fun t => t.kind = .quotedIdent).map fun t => String.ofList (u.upper (inner t.text))

def cteMainVerbs : List String := ["SELECT", "VALUES", "INSERT", "REPLACE", "UPDATE", "DELETE", "MERGE"]

def mainVerbFrom (depth : Int) : List Token → String
  | [] => ""
  | t :: ts =>
      if t.kind = .punct then
        if t.text = ['('] then mainVerbFrom (depth + 1) ts
        else if t.text = [')'] then mainVerbFrom (depth - 1) ts
        else mainVerbFrom depth ts
      else if depth = 0 ∧ t.kind = .word ∧ t.upper u ∈ cteMainVerbs then t.upper u
      else mainVerbFrom depth ts

def cteMainVerb (significant : List Token) : String := mainVerbFrom u 0 significant.tail

def cteBodyDmlVerbs : List String := ["INSERT", "UPDATE", "DELETE", "MERGE"]

/-- What the tokens before a place read as, the nearest first. -/
def followsAs (before : List Token) : Bool :=
  let read := (before.take 3).map fun t => if t.kind = .word then t.upper u else ""
  read.take 1 = ["AS"] || read.take 2 = ["MATERIALIZED", "AS"] || read = ["MATERIALIZED", "NOT", "AS"]

/-- `before` holds the tokens already passed, the nearest first. -/
def bodyVerbsFrom (before : List Token) (depth : Int) : List Token → List String
  | [] => []
  | t :: ts =>
      if t.isPunct '(' then
        let found := bodyVerbsFrom (t :: before) (depth + 1) ts
        match ts with
        | [] => found
        | body :: _ =>
            if depth = 0 ∧ followsAs u before ∧ body.kind = .word ∧ body.upper u ∈ cteBodyDmlVerbs then
              body.upper u :: found
            else found
      else if t.isPunct ')' then bodyVerbsFrom (t :: before) (depth - 1) ts
      else bodyVerbsFrom (t :: before) depth ts

def cteBodyVerbs (significant : List Token) : List String := bodyVerbsFrom u [] 0 significant

def isWordStart (c : Char) : Bool := c.isAlpha || c = '_'

def isWordPart (c : Char) : Bool := c.isAlphanum || c ∈ ['_', '$', '#']

def wordStep : Step Char Unit Empty := fun c rest =>
  if isWordStart c then .ok (some (), (rest.takeWhile isWordPart).length) else .ok (none, 0)

def findWords (body : Text) : List Text :=
  match scan wordStep body with
  | .ok ps => (ps.filter fun p => p.kind.isSome).map (·.text)

def doBody (t : Token) : Except Failure Text :=
  if t.text.head? = some '\'' then .ok (undouble (inner t.text))
  else
    match find ['$'] t.text.tail with
    | none => .error .valueError
    | some n =>
        let tagEnd := n + 2
        .ok ((t.text.take (t.text.length - tagEnd)).drop tagEnd)

def bodyNames (body : Text) : Except Failure (List String) :=
  match significantTokens u body with
  | .ok tokens => .ok (identifierWords u tokens)
  | .error (.syntaxError _) => .ok ((findWords body).map fun w => String.ofList (u.upper w))
  | .error e => .error e

def doBodyNames : List Token → Except Failure (List String)
  | [] => .ok []
  | t :: ts =>
      if t.kind = .string then do
        let names ← bodyNames u (← doBody t)
        return names ++ (← doBodyNames ts)
      else doBodyNames ts

def kindOf : List String → StatementKind
  | [] => .sql
  | first :: rest =>
      if first = "DECLARE" ∨ first = "BEGIN" then .plsqlBlock
      else if first = "CREATE" then
        match rest.dropWhile (· ∈ createModifiers) with
        | [] => .sql
        | object :: _ => if object ∈ plsqlDefinitionObjects then .plsqlDefinition else .sql
      else .sql

def classify (sql : Text) : Except Failure StatementKind := do
  let tokens ← significantTokens u sql
  match tokens with
  | [] => .error (.syntaxError "SQL text contains no statement")
  | token :: _ =>
      if words u tokens = [] then
        .error (.syntaxError ("SQL text does not begin with a recognisable keyword (starts with " ++
          pyRepr (String.ofList token.text) ++ ")"))
      else .ok (kindOf (words u tokens))

/-- A `/` alone on its line. -/
def standaloneSlash (text : Text) (token : Token) : Bool :=
  u.strip ((text.take token.start).rtakeWhile (· ≠ '\n')) = [] &&
    u.strip ((text.drop token.stop).takeWhile (· ≠ '\n')) = []

def isAlsoValidSql : List String → Bool
  | "SET" :: second :: _ => second ∈ ["ROLE", "CONSTRAINT", "CONSTRAINTS", "TRANSACTION"]
  | _ => false

def cut (text : Text) (token : Token) : Text := text.take token.start ++ text.drop token.stop

def onlyTerminator : List Token → Bool
  | [t] => t.isPunct ';' || t.isPunct '/'
  | _ => false

def someStatement (significant : List Token) : Except Failure Unit :=
  if significant = [] then .error (.syntaxError "SQL text contains no statement")
  else if onlyTerminator significant then .error (.syntaxError "SQL text contains only a terminator")
  else .ok ()

def withoutSlash (text : Text) (significant : List Token) : Except Failure (Text × List Token) :=
  match significant.getLast? with
  | none => .error .indexError
  | some last =>
      if last.isPunct '/' ∧ standaloneSlash u text last then do
        let text := cut text last
        let significant ← significantTokens u text
        someStatement significant
        return (text, significant)
      else return (text, significant)

def withoutFinal (text : Text) (significant : List Token) (last : Token) : Except Failure (Text × List Token) :=
  if last.isPunct ';' then (significantTokens u (cut text last)).map fun tokens => (cut text last, tokens)
  else .ok (text, significant)

def oneStatement (r : Text × List Token) : Except Failure (Text × List Token) :=
  if r.2.any (·.isPunct ';') then
    .error (.syntaxError ("SQL text appears to contain more than one statement; this tool executes " ++
      "one statement or block per SQL file and has no statement splitter"))
  else .ok r

/-- Remove the terminator of a plain statement, or require that of a block. -/
def withoutSemicolon (kind : StatementKind) (text : Text) (significant : List Token) :
    Except Failure (Text × List Token) :=
  match significant.getLast? with
  | none => .error .indexError
  | some last =>
      if kind = .sql then do oneStatement (← withoutFinal u text significant last)
      else if last.isPunct ';' then .ok (text, significant)
      else .error (.syntaxError "a PL/SQL block or stored definition must end with ';'")

def leadOf (significant : List Token) : List String := (words u significant).take 4

def namesIn (significant : List Token) : Except Failure (List String) :=
  if (leadOf u significant).head? = some "DO" then
    (doBodyNames u significant).map fun names => identifierWords u significant ++ names
  else .ok (identifierWords u significant)

def refuseClient (kind : StatementKind) (first : Token) (lead : List String) : Except Failure Unit :=
  if first.isPunct '@' then
    .error (.syntaxError "'@' script inclusion is a SQL*Plus command and is not supported")
  else if kind = .sql ∧ lead.headD "" ∈ sqlplusCommands ∧ ¬ isAlsoValidSql lead then
    .error (.syntaxError (lead.headD "" ++ " is an unsupported SQL*Plus or client command; " ++
      "this tool has no SQL*Plus interpreter"))
  else .ok ()

def build (kind : StatementKind) (text : Text) (significant : List Token) (names : List String) : Statement :=
  let isWith := (leadOf u significant).head? = some "WITH"
  { text := text, kind := kind, lead := leadOf u significant, names := names
    stringNames := stringsInIdentifierPosition u significant
    cteVerb := if isWith then cteMainVerb u significant else ""
    cteBodyVerbs := if isWith then cteBodyVerbs u significant else [] }

def assemble (kind : StatementKind) (text : Text) (significant : List Token) : Except Failure Statement := do
  if significant.any fun t => t.isPunct '/' && standaloneSlash u text t then
    .error (.syntaxError ("a standalone '/' is an end-of-file convenience, not a statement separator; " ++
      "this tool executes one statement or block per SQL file"))
  else if u.strip text = [] then .error (.syntaxError "SQL text is empty after normalisation")
  else
    let names ← namesIn u significant
    match significant with
    | [] => .error .indexError
    | first :: _ =>
        refuseClient kind first (leadOf u significant)
        return build u kind (u.strip text) significant names

def normalize (sql : Text) : Except Failure Statement :=
  if sql.contains '\x00' then .error (.syntaxError "SQL text contains a NUL byte")
  else do
    let significant ← significantTokens u sql
    someStatement significant
    let unslashed ← withoutSlash u sql significant
    let kind ← classify u unslashed.1
    let ended ← withoutSemicolon u kind unslashed.1 unslashed.2
    assemble u kind ended.1 ended.2

end Classify

end Migr8.SqlText
