import Migr8.SqlText

namespace Migr8.Dialects

open Characters SqlText Lib.Scanning

section Shared

def quoted (q : Char) : Text → Option Nat
  | [] => none
  | c :: s =>
      if c = q then
        match s with
        | [] => some 1
        | d :: s' => if d = q then (quoted q s').map (· + 2) else some 1
      else (quoted q s).map (· + 1)

def digits (s : Text) : Nat := (s.takeWhile Char.isDigit).length

def exponentLength : Text → Nat
  | e :: sign :: s =>
      if e = 'e' ∨ e = 'E' then
        if sign = '+' ∨ sign = '-' then if digits s = 0 then 0 else digits s + 2
        else if digits (sign :: s) = 0 then 0 else digits (sign :: s) + 1
      else 0
  | _ => 0

def fractionLength : Text → Nat
  | '.' :: s => digits s + 1
  | _ => 0

def isNumberStart (c : Char) (rest : Text) : Bool := c.isDigit || (c = '.' && rest.head?.any Char.isDigit)

def numberLength (c : Char) (rest : Text) : Nat :=
  let whole := digits rest
  let mantissa := if c = '.' then whole else whole + fractionLength (rest.drop whole)
  mantissa + exponentLength (rest.drop mantissa)

end Shared

namespace Postgres

/-- How the quotes in a literal are read: in pairs, or escaped as well, or as its end. -/
inductive Style where
  | plain | escape | bits
  deriving DecidableEq, Repr

/-- Behind a literal, a quote after a line end goes on with that literal. -/
inductive State where
  | free
  | behind (style : Style) (newline : Bool)
  deriving DecidableEq, Repr

def State.gap (c : Char) : State → State
  | .free => .free
  | .behind style newline => .behind style (newline || c = '\n' || c = '\r')

def State.style : State → Style
  | .behind style true => style
  | _ => .plain

def styleOf (c : Char) : Option Style :=
  if c = 'e' ∨ c = 'E' then some .escape
  else if c ∈ ['b', 'B', 'x', 'X'] then some .bits
  else if c = 'n' ∨ c = 'N' then some .plain
  else none

def isLetter (c : Char) : Bool := c.isAlpha || c = '_' || 128 ≤ c.toNat

def isPart (c : Char) : Bool := isLetter c || c.isDigit || c = '$'

def isTagPart (c : Char) : Bool := isLetter c || c.isDigit

/-- Where a block comment ends; comments nest. -/
def nested : Nat → Text → Option Nat
  | depth, '*' :: '/' :: s => if depth ≤ 1 then some 2 else (nested (depth - 1) s).map (· + 2)
  | depth, '/' :: '*' :: s => (nested (depth + 1) s).map (· + 2)
  | depth, _ :: s => (nested depth s).map (· + 1)
  | _, [] => none

/-- Where an escape string ends: a backslash takes the next character along. -/
def escaped : Text → Option Nat
  | '\\' :: _ :: s => (escaped s).map (· + 2)
  | ['\\'] => none
  | '\'' :: '\'' :: s => (escaped s).map (· + 2)
  | '\'' :: _ => some 1
  | _ :: s => (escaped s).map (· + 1)
  | [] => none

def literal : Style → Text → Option Nat
  | .plain, s => quoted '\'' s
  | .escape, s => escaped s
  | .bits, s => (find ['\''] s).map (· + 1)

def tag (rest : Text) : Option Text :=
  let name := rest.takeWhile isTagPart
  if (rest.drop name.length).head? = some '$' ∧ name.head?.all (!·.isDigit) then some name else none

def dollar (name rest : Text) : Option Nat :=
  (find ('$' :: (name ++ ['$'])) (rest.drop (name.length + 1))).map fun n => n + 2 * (name.length + 1) + 1

def nextCode (c : Char) (rest : Text) : TokenKind × Nat :=
  if isLetter c then (.word, (rest.takeWhile isPart).length)
  else if c = '$' ∧ digits rest ≠ 0 then (.word, digits rest)
  else if isNumberStart c rest then (.number, numberLength c rest)
  else (.punct, 0)

/-- The lexical rules of PostgreSQL, with strings that conform to the standard. -/
def next : Rule State Char TokenKind := fun s c rest =>
  if isGap c then some (none, 0, s.gap c)
  else if c = '-' ∧ rest.head? = some '-' then
    some (some .comment, (rest.takeWhile (· ∉ ['\n', '\r'])).length, s)
  else if c = '/' ∧ rest.head? = some '*' then
    (nested 1 rest.tail).map fun n => (some .comment, n + 1, .free)
  else if c = '"' then (quoted '"' rest).map fun n => (some .quotedIdent, n, .free)
  else if c = '\'' then (literal s.style rest).map fun n => (some .string, n, .behind s.style false)
  else
    match styleOf c, rest with
    | some style, '\'' :: rest => (literal style rest).map fun n => (some .string, n + 1, .behind style false)
    | _, rest =>
        match if c = '$' then tag rest else none with
        | some name => (dollar name rest).map fun n => (some .string, n, .free)
        | none => some (some (nextCode c rest).1, (nextCode c rest).2, .free)

def lex (s : Text) : Option (List (Piece Char TokenKind)) := lexFrom next .free 0 s

/-- The tokens of PostgreSQL; nothing, where it finds a literal or a comment without its end. -/
def tokenize (s : Text) : Option (List Token) := (lex s).map (locate 0)

end Postgres

namespace Sqlite

def isIdChar (c : Char) : Bool := c.isAlphanum || c ∈ ['_', '$'] || 128 ≤ c.toNat

def suffixLength (rest : Text) : Nat :=
  let inside := (rest.takeWhile fun c => !isAsciiSpace c && c ≠ ')').length
  if (rest.drop inside).head? = some ')' then inside + 1 else inside

def variableLength : Bool → Text → Nat
  | _, [] => 0
  | named, c :: s =>
      if isIdChar c then variableLength true s + 1
      else if c = '(' ∧ named then suffixLength s + 1
      else if c = ':' then
        match s with
        | [] => 0
        | d :: s' => if d = ':' then variableLength named s' + 2 else 0
      else 0

def nextCode (c : Char) (rest : Text) : TokenKind × Nat :=
  if c ∈ ['$', '@', '#', ':'] then (.word, variableLength false rest)
  else if c = '?' then (.word, digits rest)
  else if isNumberStart c rest then
    let n := numberLength c rest
    (.number, n + ((rest.drop n).takeWhile isIdChar).length)
  else if isIdChar c then (.word, (rest.takeWhile isIdChar).length)
  else (.punct, 0)

/-- White space, and a byte order mark where a token would start. -/
def isBlank (c : Char) : Bool := isGap c || c.toNat = 0xFEFF

/-- The lexical rules of SQLite. -/
def next : Rule Unit Char TokenKind := fun _ c rest =>
  if isBlank c then some (none, 0, ())
  else if c = '-' ∧ rest.head? = some '-' then
    some (some .comment, (rest.takeWhile (· ≠ '\n')).length, ())
  else if c = '/' ∧ rest.head? = some '*' ∧ rest.tail ≠ [] then
    -- a comment may lack its end
    some (some .comment, ((find ['*', '/'] rest.tail).map (· + 3)).getD rest.length, ())
  else if c = '"' ∨ c = '`' then (quoted c rest).map fun n => (some .quotedIdent, n, ())
  else if c = '[' then (find [']'] rest).map fun n => (some .quotedIdent, n + 1, ())
  else if c = '\'' then (quoted '\'' rest).map fun n => (some .string, n, ())
  else if (c = 'x' ∨ c = 'X') ∧ rest.head? = some '\'' then
    (find ['\''] rest.tail).map fun n => (some .string, n + 2, ())
  else some (some (nextCode c rest).1, (nextCode c rest).2, ())

def lex (s : Text) : Option (List (Piece Char TokenKind)) := lexFrom next () 0 s

/-- The tokens of SQLite; nothing, where it finds a literal or a name without its end. -/
def tokenize (s : Text) : Option (List Token) := (lex s).map (locate 0)

end Sqlite

end Migr8.Dialects
