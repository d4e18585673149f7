import Migr8.Prose
import Migr8.Readings

namespace Migr8.ObjectNames

open Model Driver Context Characters Lib.Scanning SqlText Scanner Pieces Migr8.Normal Congruence Projection Prose
    Admission
  Dialects Readings

section Syntax

def undoubled (q : Char) : Text → Text
  | c :: d :: s => if c = q ∧ d = q then q :: undoubled q s else c :: undoubled q (d :: s)
  | s => s

/-- How SQLite lets the name of an object be spelled. -/
inductive Spelling where
  | bare (word : Text)
  | quoted (inside : Text)
  | bracketed (inside : Text)
  | ticked (inside : Text)
  | literal (inside : Text)

def Spelling.token : Spelling → Token
  | .bare word => unplaced (.word, word)
  | .quoted inside => unplaced (.quotedIdent, '"' :: (inside ++ ['"']))
  | .bracketed inside => unplaced (.quotedIdent, '[' :: (inside ++ [']']))
  | .ticked inside => unplaced (.quotedIdent, '`' :: (inside ++ ['`']))
  | .literal inside => unplaced (.string, '\'' :: (inside ++ ['\'']))

def Spelling.value : Spelling → Text
  | .bare word => word
  | .quoted inside => undoubled '"' inside
  | .bracketed inside => inside
  | .ticked inside => undoubled '`' inside
  | .literal inside => undoubled '\'' inside

/-- The words that SQLite's grammar has right before the name of a table or an index, `IN`
and `BY` apart. -/
def objectWords : List String :=
  ["FROM", "JOIN", "INTO", "UPDATE", "ROLLBACK", "ABORT", "REPLACE", "FAIL", "IGNORE", "TABLE", "VIEW", "INDEX",
    "TRIGGER", "EXISTS", "ON", "REFERENCES", "TO"]

/-- What stands right before the name of a table or an index. -/
inductive Place where
  /-- a target, the first item of a `FROM`, an operand of a `JOIN`, an object of a definition -/
  | after (word : Text) (h : String.ofList (folded word) ∈ objectWords)
  /-- a name with its schema -/
  | dot
  /-- an item of a `FROM` list after a comma -/
  | comma
  /-- the first item of a list in parentheses -/
  | paren
  /-- the table of an `IN` -/
  | among (word : Text) (h : String.ofList (folded word) = "IN")
  /-- the index of an `INDEXED BY` -/
  | indexed (word : Text) (h : String.ofList (folded word) = "BY")

def Place.token : Place → Token
  | .after word _ => unplaced (.word, word)
  | .dot => mark '.'
  | .comma => mark ','
  | .paren => mark '('
  | .among word _ => unplaced (.word, word)
  | .indexed word _ => unplaced (.word, word)

/-- A statement is a sequence of names of objects, each with what stands before it, and of
any other tokens. -/
inductive Phrase where
  | token (t : Token)
  | name (p : Place) (n : Spelling)

def Phrase.tokens : Phrase → List Token
  | .token t => [t]
  | .name p n => [p.token, n.token]

def tokensOf (q : List Phrase) : List Token := q.flatMap (·.tokens)

/-- By the tokens of SQLite, the text is the statement. -/
def Spells (s : Text) (q : List Phrase) : Prop := Spelled Sqlite.tokenize s (tokensOf q)

def statementVerbs : List String :=
  ["INSERT", "REPLACE", "UPDATE", "DELETE", "SELECT", "WITH", "CREATE", "ALTER", "DROP"]

def Opens (q : List Phrase) : Prop :=
  ∃ word rest, q = .token (unplaced (.word, word)) :: rest ∧ String.ofList (folded word) ∈ statementVerbs

/-- Refused in every mode and batch context, and as a definition. -/
def Refused (u : Unicode) (st : Statement) : Prop :=
  (∀ mode inBatch, admitStatement u .sqlite st mode inBatch ≠ none) ∧ admitDdl u .sqlite st ≠ none

end Syntax

section Condition

variable (u : Unicode)

/-- One piece of SQLite's; what is white space or a comment is that to the scanner, too. -/
def Whole (xs ys : List SqlPiece) : Prop := ∃ p, xs = [p] ∧ (sigShapes [p] = [] → sigShapes ys = [])

def Named (value : Text) : Prop := ∃ r ∈ reservedObjectNames, String.ofList (u.upper value) = r.toUpper

def Shown (previous : Option Token) (t : Token) : Prop :=
  (t.kind = .word ∧ Named u t.text) ∨ (t.kind = .quotedIdent ∧ Named u (inner t.text)) ∨
    ∃ value, stringValue t = some value ∧ Named u value ∧ previous.any (inIdentifierPosition u) = true

def ending (previous : Option Token) : List Token → Option Token
  | [] => previous
  | t :: ts => ending (some t) ts

end Condition

variable {u : Unicode} {s : Text} {st : Statement} {toks ts ts' : List Token} {t : Token}
  {previous previous' : Option Token}
  {q : List Phrase} {value word inside : Text} {c : Char} {ps qs : List SqlPiece}

section Visible

end Visible

section Folding

end Folding

section Places

end Places

section Guard

end Guard

section Example

def wordToken (w : String) : Token := unplaced (.word, w.toList)

end Example

end Migr8.ObjectNames
