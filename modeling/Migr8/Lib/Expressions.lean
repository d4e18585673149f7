import Mathlib.Data.List.Basic

namespace Migr8.Lib.Expressions

/-- The values of a column or an expression. Of the types other than truth values,
texts and numbers only the identity counts. -/
inductive Value where
  | null
  | bool (b : Bool)
  | text (s : List Char)
  | number (digits : List Char)
  | other (n : Nat)
  deriving DecidableEq, Repr

def isNameChar (c : Char) : Bool := c.isAlphanum || c = '_' || c = '$' || c = '.'

/-- A name in a stored text. What is not quoted is a plain word, qualified or not. -/
structure Name where
  spelled : List Char
  quoted : Bool
  plain : quoted = true ∨ spelled ≠ [] ∧ spelled.all isNameChar = true

/-- The name that is meant: the engine folds the case of a bare one. -/
def Name.resolve (fold : Char → Char) (n : Name) : List Char := if n.quoted then n.spelled else n.spelled.map fold

def operatorChars : List Char :=
  ['+', '-', '*', '/', '<', '>', '=', '~', '!', '@', '#', '%', '^', '&', '|', ',', '?', ':', '[', ']', '.']

/-- What stands before, between or behind operands: a symbol or some keywords. -/
inductive Word where
  | symbol (s : List Char) (h : s ≠ [] ∧ s.all (operatorChars.contains ·) = true)
  | phrase (words : List (List Char))
  deriving DecidableEq

def equalSign : Word := .symbol ['='] (by decide)

def conjunction : Word := .phrase [['A', 'N', 'D']]

def disjunction : Word := .phrase [['O', 'R']]

def negation : Word := .phrase [['N', 'O', 'T']]

def nullTest : Word := .phrase [['I', 'S'], ['N', 'U', 'L', 'L']]

def valueTest : Word := .phrase [['I', 'S'], ['N', 'O', 'T'], ['N', 'U', 'L', 'L']]

/-- What a piece of syntax stands for: a value, the arguments of a call or the arms
of a `CASE`. -/
inductive Part where
  | value | list | arms

inductive Expr : Part → Type where
  | column (name : Name) : Expr .value
  | literal (value : List Char) : Expr .value
  | number (digits : List Char) (h : digits ≠ [] ∧ digits.all Char.isDigit = true) : Expr .value
  | constant (word : List Char) (h : word ≠ [] ∧ word.all Char.isAlpha = true) : Expr .value
  | call (name : Name) (args : Expr .list) : Expr .value
  | before (word : Word) (e : Expr .value) : Expr .value
  | between (word : Word) (l r : Expr .value) : Expr .value
  | after (e : Expr .value) (word : Word) : Expr .value
  | cast (e : Expr .value) (type : Name) : Expr .value
  | searched (arms : Expr .arms) : Expr .value
  | simple (subject : Expr .value) (arms : Expr .arms) : Expr .value
  | paren (e : Expr .value) : Expr .value
  | none : Expr .list
  | last (e : Expr .value) : Expr .list
  | more (e : Expr .value) (rest : Expr .list) : Expr .list
  | stop : Expr .arms
  | otherwise (e : Expr .value) : Expr .arms
  | arm (condition result : Expr .value) (rest : Expr .arms) : Expr .arms

section Texts

inductive TokenKind where
  | word | symbol | other
  deriving DecidableEq, Repr

structure Token where
  kind : TokenKind
  text : List Char

def doubled (quote c : Char) : List Char := if c = quote then [c, c] else [c]

def quotedText (quote : Char) (s : List Char) : List Char := quote :: s.flatMap (doubled quote) ++ [quote]

def Name.token (n : Name) : Token := if n.quoted then ⟨.other, quotedText '"' n.spelled⟩ else ⟨.word, n.spelled⟩

def keyword (s : List Char) : Token := ⟨.word, s⟩

def Word.tokens : Word → List Token
  | .symbol s _ => [⟨.symbol, s⟩]
  | .phrase words => words.map keyword

def tokens {p : Part} : Expr p → List Token
  | .column name => [name.token]
  | .literal value => [⟨.other, quotedText '\'' value⟩]
  | .number digits _ => [⟨.word, digits⟩]
  | .constant word _ => [⟨.word, word⟩]
  | .call name args => name.token :: ⟨.other, ['(']⟩ :: tokens args ++ [⟨.other, [')']⟩]
  | .before word e => word.tokens ++ tokens e
  | .between word l r => tokens l ++ word.tokens ++ tokens r
  | .after e word => tokens e ++ word.tokens
  | .cast e type => tokens e ++ [⟨.symbol, [':', ':']⟩, type.token]
  | .searched arms => keyword ['C', 'A', 'S', 'E'] :: tokens arms ++ [keyword ['E', 'N', 'D']]
  | .simple subject arms => keyword ['C', 'A', 'S', 'E'] :: tokens subject ++ tokens arms ++ [keyword ['E', 'N', 'D']]
  | .paren e => ⟨.other, ['(']⟩ :: tokens e ++ [⟨.other, [')']⟩]
  | .none => []
  | .last e => tokens e
  | .more e rest => tokens e ++ ⟨.other, [',']⟩ :: tokens rest
  | .stop => []
  | .otherwise e => keyword ['E', 'L', 'S', 'E'] :: tokens e
  | .arm condition result rest =>
      keyword ['W', 'H', 'E', 'N'] :: tokens condition ++ keyword ['T', 'H', 'E', 'N'] :: tokens result ++ tokens rest

variable (name type : Name) (word : Word) (e l r : Expr .value) (arms : Expr .arms)

theorem tokens_column : tokens (.column name) = [name.token] := rfl

theorem tokens_literal (value : List Char) : tokens (.literal value) = [⟨.other, quotedText '\'' value⟩] := rfl

theorem tokens_constant {w : List Char} (h : w ≠ [] ∧ w.all Char.isAlpha = true) :
    tokens (.constant w h) = [⟨.word, w⟩] := rfl

theorem tokens_before : tokens (.before word e) = word.tokens ++ tokens e := rfl

theorem tokens_between : tokens (.between word l r) = tokens l ++ word.tokens ++ tokens r := rfl

theorem tokens_after : tokens (.after e word) = tokens e ++ word.tokens := rfl

theorem tokens_cast : tokens (.cast e type) = tokens e ++ [⟨.symbol, [':', ':']⟩, type.token] := rfl

theorem tokens_searched :
    tokens (.searched arms) = keyword ['C', 'A', 'S', 'E'] :: tokens arms ++ [keyword ['E', 'N', 'D']] := rfl

theorem tokens_simple : tokens (.simple e arms) =
    keyword ['C', 'A', 'S', 'E'] :: tokens e ++ tokens arms ++ [keyword ['E', 'N', 'D']] := rfl

theorem tokens_paren : tokens (.paren e) = ⟨.other, ['(']⟩ :: tokens e ++ [⟨.other, [')']⟩] := rfl

theorem tokens_otherwise : tokens (.otherwise e) = keyword ['E', 'L', 'S', 'E'] :: tokens e := rfl

theorem tokens_arm : tokens (.arm l r arms) =
    keyword ['W', 'H', 'E', 'N'] :: tokens l ++ keyword ['T', 'H', 'E', 'N'] :: tokens r ++ tokens arms := rfl

def isBlank (c : Char) : Bool := c = ' ' || c = '\t' || c = '\n' || c = '\r'

abbrev Blank := {s : List Char // s.all isBlank = true}

def joint (t : Token) (ts : List Token) (gap : Blank) : List Char :=
  if gap.1 = [] ∧ t.kind ≠ .other ∧ ts.head?.any (·.kind = t.kind) then [' '] else gap.1

def lay (gaps : Nat → Blank) : List Token → List Char
  | [] => (gaps 0).1
  | t :: ts => t.text ++ joint t ts (gaps 0) ++ lay (fun n => gaps (n + 1)) ts

end Texts

section Values

/-- What a database makes of the functions, operators and types that it defines. -/
structure Catalog where
  constant : List Char → Value
  call : List Char → List Value → Value
  before : Word → Value → Value
  between : Word → Value → Value → Value
  after : Word → Value → Value
  cast : List Char → Value → Value

def truth : Value → Option Bool
  | .bool b => some b
  | _ => Option.none

def ofTruth : Option Bool → Value
  | some b => .bool b
  | Option.none => .null

def and3 (a b : Option Bool) : Option Bool :=
  if a = some false ∨ b = some false then some false
  else if a = some true ∧ b = some true then some true
  else Option.none

def equals (C : Catalog) (v w : Value) : Value :=
  match v, w with
  | .null, _ => .null
  | _, .null => .null
  | .text a, .text b => .bool (a = b)
  | v, w => C.between equalSign v w

def asText (C : Catalog) (type : List Char) (v : Value) : Value :=
  match v with
  | .null => .null
  | .text s => .text s
  | v => C.cast type v

def isNull (v : Value) : Bool := v = .null

def choose (test : Value → Bool) : List (Value × Value) → Value → Value
  | [], last => last
  | (c, v) :: arms, last => if test c then v else choose test arms last

abbrev Meaning : Part → Type
  | .value => Value
  | .list => List Value
  | .arms => List (Value × Value) × Value

variable (fold : Char → Char) (C : Catalog) (row : List Char → Value)

def textType : List Char := ['t', 'e', 'x', 't']

def eval {p : Part} : Expr p → Meaning p
  | .column name => row (name.resolve fold)
  | .literal value => Value.text value
  | .number digits _ => Value.number digits
  | .constant word _ =>
      if word = ['N', 'U', 'L', 'L'] then Value.null
      else if word = ['t', 'r', 'u', 'e'] then Value.bool true
      else if word = ['f', 'a', 'l', 's', 'e'] then Value.bool false
      else C.constant word
  | .call name args => C.call (name.resolve fold) (eval args)
  | .before word e => if word = negation then ofTruth ((truth (eval e)).map not) else C.before word (eval e)
  | .between word l r =>
      if word = equalSign then equals C (eval l) (eval r)
      else if word = conjunction then ofTruth (and3 (truth (eval l)) (truth (eval r)))
      else if word = disjunction then
        ofTruth ((and3 ((truth (eval l)).map not) ((truth (eval r)).map not)).map not)
      else C.between word (eval l) (eval r)
  | .after e word =>
      if word = nullTest then Value.bool (isNull (eval e))
      else if word = valueTest then Value.bool (!isNull (eval e))
      else C.after word (eval e)
  | .cast e type =>
      if type.resolve fold = textType then asText C textType (eval e) else C.cast (type.resolve fold) (eval e)
  | .searched arms => choose (· = .bool true) (eval arms).1 (eval arms).2
  | .simple subject arms => choose (fun c => equals C (eval subject) c = .bool true) (eval arms).1 (eval arms).2
  | .paren e => eval e
  | .none => []
  | .last e => [eval e]
  | .more e rest => List.cons (eval e) (eval rest)
  | .stop => ([], .null)
  | .otherwise e => ([], eval e)
  | .arm condition result rest => ((eval condition, eval result) :: (eval rest).1, (eval rest).2)

section Equations

variable (name type : Name) (word : Word) (e l r : Expr .value) (arms : Expr .arms)

theorem eval_column : eval fold C row (.column name) = row (name.resolve fold) := rfl

theorem eval_constant {w : List Char} (h : w ≠ [] ∧ w.all Char.isAlpha = true) :
    eval fold C row (.constant w h) =
      if w = ['N', 'U', 'L', 'L'] then Value.null
      else if w = ['t', 'r', 'u', 'e'] then Value.bool true
      else if w = ['f', 'a', 'l', 's', 'e'] then Value.bool false
      else C.constant w := rfl

theorem eval_before : eval fold C row (.before word e) =
    if word = negation then ofTruth ((truth (eval fold C row e)).map not) else C.before word (eval fold C row e) := rfl

theorem eval_between : eval fold C row (.between word l r) =
    if word = equalSign then equals C (eval fold C row l) (eval fold C row r)
    else if word = conjunction then ofTruth (and3 (truth (eval fold C row l)) (truth (eval fold C row r)))
    else if word = disjunction then
      ofTruth ((and3 ((truth (eval fold C row l)).map not) ((truth (eval fold C row r)).map not)).map not)
    else C.between word (eval fold C row l) (eval fold C row r) := rfl

theorem eval_equalSign : eval fold C row (.between equalSign l r) = equals C (eval fold C row l) (eval fold C row r) :=
  rfl

theorem eval_after : eval fold C row (.after e word) =
    if word = nullTest then Value.bool (isNull (eval fold C row e))
    else if word = valueTest then Value.bool (!isNull (eval fold C row e))
    else C.after word (eval fold C row e) := rfl

theorem eval_cast : eval fold C row (.cast e type) =
    if type.resolve fold = textType then asText C textType (eval fold C row e)
    else C.cast (type.resolve fold) (eval fold C row e) := rfl

/-- One arm and no other result. -/
theorem eval_searched : eval fold C row (.searched (.arm l r .stop)) =
    if eval fold C row l = Value.bool true then eval fold C row r else Value.null := by
  exact if_congr decide_eq_true_iff rfl rfl

theorem eval_simple : eval fold C row (.simple e (.arm l r .stop)) =
    if equals C (eval fold C row e) (eval fold C row l) = Value.bool true then eval fold C row r else Value.null := by
  exact if_congr decide_eq_true_iff rfl rfl

end Equations

end Values

section Cores

variable {fold : Char → Char} {C : Catalog} {row : List Char → Value} {v : List Char}

/-- The cases of a value, with a hypothesis where parentheses or a cast go around one. -/
theorem value_induction {motive : Expr .value → Prop} (column : ∀ name, motive (.column name))
    (literal : ∀ value, motive (.literal value)) (number : ∀ digits h, motive (.number digits h))
    (constant : ∀ word h, motive (.constant word h)) (call : ∀ name args, motive (.call name args))
    (before : ∀ word e, motive (.before word e)) (between : ∀ word l r, motive (.between word l r))
    (after : ∀ e word, motive (.after e word)) (cast : ∀ e type, motive e → motive (.cast e type))
    (searched : ∀ arms, motive (.searched arms)) (simple : ∀ e arms, motive (.simple e arms))
    (paren : ∀ e, motive e → motive (.paren e)) (e : Expr .value) : motive e := by
  have hall {p : Part} (e : Expr p) (hp : p = .value) : motive (hp ▸ e) := by
    induction e with
    | column name => exact column name
    | literal value => exact literal value
    | number digits h => exact number digits h
    | constant word h => exact constant word h
    | call name args => exact call name args
    | before word e => exact before word e
    | between word l r => exact between word l r
    | after e word => exact after e word
    | cast e type ih => exact cast e type (ih rfl)
    | searched arms => exact searched arms
    | simple e arms => exact simple e arms
    | paren e ih => exact paren e (ih rfl)
    | _ => cases hp
  exact hall e rfl

def unwrap {p : Part} : Expr p → Expr p
  | .paren e => unwrap e
  | e => e

variable (fold) in
def core {p : Part} : Expr p → Expr p
  | .paren e => core e
  | .cast e type => if type.resolve fold = textType then core e else .cast e type
  | e => e

theorem eval_unwrap (e : Expr .value) : eval fold C row (unwrap e) = eval fold C row e := by
  induction e using value_induction with
  | paren e ih => exact ih
  | _ => rfl

theorem eval_textCast {e : Expr .value} {type : Name} (ht : type.resolve fold = textType)
    (he : eval fold C row e = Value.text v) : eval fold C row (.cast e type) = Value.text v := by
  rw [eval_cast, if_pos ht, he]
  rfl

/-- A cast to text leaves a text as it is. -/
theorem eval_of_core {e e' : Expr .value} (h : core fold e = e') (hn : ∀ e t, e' ≠ .cast e t)
    (hv : eval fold C row e' = Value.text v) : eval fold C row e = Value.text v := by
  induction e using value_induction with
  | paren e ih => exact ih h
  | cast e type ih =>
      rw [core] at h
      split at h
      · next ht => exact eval_textCast ht (ih h)
      · exact absurd h.symm (hn _ _)
  | _ =>
      rw [← h] at hv
      exact hv

theorem ofTruth_ne_text (b : Option Bool) : ofTruth b ≠ .text v := by
  cases b <;> exact Value.noConfusion

theorem equals_text (a b : List Char) : equals C (.text a) (.text b) = .bool (a = b) := rfl

end Cores

end Migr8.Lib.Expressions
