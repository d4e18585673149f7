import Migr8.Normal
import Migr8.Dialects
import Migr8.Admission
import Migr8.Lib.Marking

namespace Migr8.Ranges

open Characters SqlText Lib.Scanning Lib.Marking Scanner Pieces Migr8.Normal Dialects Admission

section Marks

end Marks

section Conditions

variable (u : Unicode) (z : Text)

/-- A character of white space, a number, a word or a single other character, with `z` after it. -/
inductive Unmarked : Text → Prop
  | gap {c : Char} (h : isGap c = true) : Unmarked [c]
  | number {c : Char} {t : Text} (hc : NumberStart u c (t ++ z)) (hn : Numeral u z (c :: t)) : Unmarked (c :: t)
  | word {c : Char} {t : Text} (hc : isIdentStart u c = true) (hd : u.isDigit c = false)
      (ht : ∀ d ∈ t, isIdentPart u d = true) (hz : ∀ d ∈ z.head?, isIdentPart u d = false)
      (htag : c = '$' → dollarTag (t ++ z) = none) (hp : ¬ Prefixed c (t ++ z)) : Unmarked (c :: t)
  | single {c : Char} (hc : isIdentStart u c = false) (hg : isGap c = false) (hn : ¬ NumberStart u c z)
      (hq : c ≠ '"' ∧ c ≠ '\'') (hm : c = '-' → z.head? ≠ some '-') (hs : c = '/' → z.head? ≠ some '*') :
      Unmarked [c]

/-- Before `z` the text divides into white space, numbers, words and single characters. -/
inductive Code : Text → Prop
  | nil : Code []
  | cons {t s : Text} (ht : Unmarked u (s ++ z) t) (hs : Code s) : Code (t ++ s)

/-- The comments, literals and quoted identifiers that the scanner knows, with the letters
before their first delimiter and what follows them. -/
inductive Known : Text → TokenKind → Text → Prop
  | lineComment {t : Text} (ht : '\n' ∉ t) (hz : ∀ d ∈ z.head?, d = '\n') : Known [] .comment ('-' :: '-' :: t)
  | blockComment {t : Text} (h : Closes ['*', '/'] t) : Known [] .comment ('/' :: '*' :: (t ++ ['*', '/']))
  | quotedIdent {t : Text} (h : '"' ∉ t) : Known [] .quotedIdent ('"' :: (t ++ ['"']))
  | plain {pre t : Text} (hpre : pre ∈ [[], ['n'], ['N']]) (h : Doubled t) (hz : z.head? ≠ some '\'') :
      Known pre .string ('\'' :: (t ++ ['\'']))
  | alternative {pre t : Text} {d : Char}
      (hpre : pre ∈ [['q'], ['Q'], ['n', 'q'], ['n', 'Q'], ['N', 'q'], ['N', 'Q']])
      (hd : d ∉ [' ', '\t', '\r', '\n']) (h : Closes [altCloser d, '\''] t) :
      Known pre .string ('\'' :: d :: (t ++ [altCloser d, '\'']))
  | dollar {name t : Text} (hn : TagName name) (h : Closes (tagOf name) t) :
      Known [] .string ('$' :: (name ++ '$' :: (t ++ tagOf name)))

variable {z}

def Alike (p : Stretch Char TokenKind) (z : Text) : Prop :=
  ∃ lead pre, p.lead = lead ++ pre ∧ Code u (pre ++ (p.body ++ z)) lead ∧ Known z pre p.kind p.body

end Conditions

variable {u : Unicode} {c : Char} {s t x z pre body lead name : Text} {kind : TokenKind} {n : Nat}
  {ps qs : List SqlPiece}

section Divide

end Divide

section Known

end Known

section Divisions

end Divisions

section Example

def plainText : Text := "SELECT N'a', \"b\" FROM t -- c".toList

def plainStatement : Statement where
  text := plainText
  kind := .sql
  lead := ["SELECT", "FROM", "T"]
  names := ["SELECT", "FROM", "T", "B"]

end Example

end Migr8.Ranges
