import Migr8.Prose
import Migr8.Readings

namespace Migr8.CommonTables

open Characters SqlText Scanner Migr8.Normal Congruence Prose Readings

/-- A token that neither pairs with another nor ends a statement. -/
def Plain (t : Token) : Prop := t.isPunct '(' = false ∧ t.isPunct ')' = false ∧ t.isPunct ';' = false

/-- Tokens of one statement, whose parentheses pair up. -/
inductive Balanced : List Token → Prop
  | nil : Balanced []
  | token {t : Token} {ts : List Token} (ht : Plain t) (h : Balanced ts) : Balanced (t :: ts)
  | group {ts ts' : List Token} (h : Balanced ts) (h' : Balanced ts') : Balanced (mark '(' :: (ts ++ mark ')' :: ts'))

def enclosed (ts : List Token) : List Token := mark '(' :: (ts ++ [mark ')'])

def wrapped : Nat → List Token → List Token
  | 0, ts => ts
  | n + 1, ts => enclosed (wrapped n ts)

section Syntax

variable (u : Unicode)

def Keyword (word : String) : Type := {t : Token // t.kind = .word ∧ t.upper u = word}

/-- What names a common table expression: any tokens but `AS`. -/
structure Name where
  tokens : List Token
  named : tokens ≠ []
  plain : ∀ t ∈ tokens, Plain t ∧ ¬ (t.kind = .word ∧ t.upper u = "AS")

def dmlVerbs : List String := ["INSERT", "UPDATE", "DELETE", "MERGE"]

def clauseVerbs : List String := "SELECT" :: "VALUES" :: dmlVerbs

/-- A `SELECT`, a `VALUES` or a data-modifying statement without a `WITH` list. -/
structure Clause where
  verb : Token
  word : verb.kind = .word
  known : verb.upper u ∈ clauseVerbs
  rest : List Token
  balanced : Balanced rest
  ended : ∀ t ∈ rest.getLast?, t.isPunct '/' = false

inductive Materialized where
  | unsaid
  | yes (materialized : Keyword u "MATERIALIZED")
  | no (not : Keyword u "NOT") (materialized : Keyword u "MATERIALIZED")

mutual

/-- `name [(columns)] AS [[NOT] MATERIALIZED] ( body )` -/
inductive Cte where
  | mk (name : Name u) (columns : Option {ts // Balanced ts}) (as : Keyword u "AS") (materialized : Materialized u)
      (body : Query)

/-- A statement, with its `WITH` list if it has one. -/
inductive Query where
  | plain (main : Clause u)
  | under (opening : Keyword u "WITH") (recursive : Option (Keyword u "RECURSIVE")) (first : Cte) (more : List Cte)
      (main : Clause u)

end

variable {u}

def Clause.tokens (c : Clause u) : List Token := c.verb :: c.rest

def Materialized.tokens : Materialized u → List Token
  | .unsaid => []
  | .yes m => [m.1]
  | .no n m => [n.1, m.1]

def columnTokens : Option {ts // Balanced ts} → List Token
  | none => []
  | some ts => enclosed ts.1

def recursiveTokens : Option (Keyword u "RECURSIVE") → List Token
  | none => []
  | some r => [r.1]

mutual

def Cte.tokens : Cte u → List Token
  | .mk name columns as materialized body =>
      name.tokens ++ (columnTokens columns ++ as.1 :: (materialized.tokens ++ enclosed body.tokens))

def Query.tokens : Query u → List Token
  | .plain main => main.tokens
  | .under opening recursive first more main =>
      opening.1 :: (recursiveTokens recursive ++ (first.tokens ++ (moreTokens more ++ main.tokens)))

def moreTokens : List (Cte u) → List Token
  | [] => []
  | c :: cs => mark ',' :: (c.tokens ++ moreTokens cs)

end

def Cte.name : Cte u → Name u
  | .mk name .. => name

def Cte.body : Cte u → Query u
  | .mk _ _ _ _ body => body

def Query.main : Query u → Clause u
  | .plain main => main
  | .under _ _ _ _ main => main

/-- A statement that starts with `WITH`, in any number of outer parentheses. -/
structure WithStatement (u : Unicode) where
  wraps : Nat
  opening : Keyword u "WITH"
  recursive : Option (Keyword u "RECURSIVE")
  first : Cte u
  more : List (Cte u)
  main : Clause u
  terminated : Bool

def WithStatement.ctes (q : WithStatement u) : List (Cte u) := q.first :: q.more

def WithStatement.core (q : WithStatement u) : List Token :=
  (Query.under q.opening q.recursive q.first q.more q.main).tokens

def WithStatement.ending (q : WithStatement u) : List Token := if q.terminated then [mark ';'] else []

def WithStatement.tokens (q : WithStatement u) : List Token := wrapped q.wraps q.core ++ q.ending

def Modifies (c : Clause u) : Prop := c.verb.upper u ∈ dmlVerbs

/-- The statement writes, by itself or by a body of its list. -/
def WithStatement.Modifies (q : WithStatement u) : Prop :=
  CommonTables.Modifies q.main ∨ ∃ c ∈ q.ctes, CommonTables.Modifies c.body.main

end Syntax

section Condition

variable {u : Unicode}

def WithStatement.verbName (q : WithStatement u) : Option String :=
  (words u (q.ctes.flatMap fun c => c.name.tokens)).find? (· ∈ cteMainVerbs)

/-- The word that is taken for the verb: a name that reads as one comes first. -/
def WithStatement.seen (q : WithStatement u) : String :=
  if q.wraps ≤ 1 then q.verbName.getD (q.main.verb.upper u) else ""

/-- A body that starts with its verb, with no `WITH` list before it. -/
def Bare : Cte u → Prop
  | .mk _ _ _ _ (.plain main) => CommonTables.Modifies main
  | .mk _ _ _ _ (.under ..) => False

def level : List Token → Int
  | [] => 0
  | t :: ts => (if t.isPunct '(' then 1 else if t.isPunct ')' then -1 else 0) + level ts

/-- Something past the list, outside parentheses, reads like a body that writes. -/
def Lookalike (u : Unicode) (rest : List Token) : Prop :=
  ∃ before opening t after, rest = before ++ opening :: t :: after ∧ level before = 0 ∧ opening.isPunct '(' = true ∧
    followsAs u before.reverse = true ∧ t.kind = .word ∧ t.upper u ∈ dmlVerbs

end Condition

variable {u : Unicode} {ts ts' rest before : List Token} {t : Token}

section Parentheses

theorem Balanced.append (h : Balanced ts) (h' : Balanced ts') : Balanced (ts ++ ts') := by
  induction h with
  | nil => exact h'
  | token ht _ ih => exact .token ht ih
  | group h _ _ ih => simpa using Balanced.group h ih

theorem Balanced.enclosed (h : Balanced ts) : Balanced (enclosed ts) := .group h .nil

theorem Balanced.wrapped (h : Balanced ts) : ∀ n, Balanced (wrapped n ts)
  | 0 => h
  | n + 1 => (h.wrapped n).enclosed

theorem balanced_of_plain (h : ∀ t ∈ ts, Plain t) : Balanced ts := by
  induction ts with
  | nil => exact .nil
  | cons t ts ih => exact .token (h t List.mem_cons_self) (ih fun x hx => h x (List.mem_cons_of_mem _ hx))

theorem plain_of_word (h : t.kind = .word) : Plain t := by simp [Plain, Token.isPunct, h]

theorem plain_comma : Plain (mark ',') := by simp [Plain]

theorem Balanced.no_terminator (h : Balanced ts) : ∀ t ∈ ts, t.isPunct ';' = false := by
  have hmark {c : Char} (hc : c ≠ ';') : (mark c).isPunct ';' = false := by simp [hc]
  induction h with
  | nil => simp
  | token ht _ ih =>
      intro x hx
      obtain rfl | hx := List.mem_cons.1 hx
      · exact ht.2.2
      · exact ih x hx
  | group _ _ ih ih' =>
      intro x hx
      simp only [List.mem_cons, List.mem_append] at hx
      obtain rfl | hx | rfl | hx := hx
      · exact hmark (by decide)
      · exact ih x hx
      · exact hmark (by decide)
      · exact ih' x hx

theorem materialized_plain {m : Materialized u} : ∀ t ∈ m.tokens, Plain t := by
  intro t ht
  cases m with
  | unsaid => cases ht
  | yes m =>
      obtain rfl := List.mem_singleton.1 ht
      exact plain_of_word m.2.1
  | no n m =>
      obtain rfl | ht := List.mem_cons.1 ht
      · exact plain_of_word n.2.1
      · obtain rfl := List.mem_singleton.1 ht
        exact plain_of_word m.2.1

theorem Clause.balanced_tokens (c : Clause u) : Balanced c.tokens := .token (plain_of_word c.word) c.balanced

mutual

theorem Cte.balanced : ∀ c : Cte u, Balanced c.tokens
  | .mk name columns as materialized body => by
      have hname := balanced_of_plain fun t ht => (name.plain t ht).1
      have hcolumns : Balanced (columnTokens columns) := by
        cases columns with
        | none => exact .nil
        | some ts => exact ts.2.enclosed
      have hmaterialized := balanced_of_plain (materialized_plain (m := materialized))
      have hbody := (Query.balanced body).enclosed
      rw [Cte.tokens]
      exact hname.append (hcolumns.append (.token (plain_of_word as.2.1) (hmaterialized.append hbody)))

theorem Query.balanced : ∀ q : Query u, Balanced q.tokens
  | .plain main => by
      rw [Query.tokens]
      exact main.balanced_tokens
  | .under opening recursive first more main => by
      have hrecursive : Balanced (recursiveTokens recursive) := by
        cases recursive with
        | none => exact .nil
        | some r => exact .token (plain_of_word r.2.1) .nil
      rw [Query.tokens]
      exact .token (plain_of_word opening.2.1) (hrecursive.append
        ((Cte.balanced first).append ((more_balanced more).append main.balanced_tokens)))

theorem more_balanced : ∀ cs : List (Cte u), Balanced (moreTokens cs)
  | [] => by
      rw [moreTokens]
      exact .nil
  | c :: cs => by
      rw [moreTokens]
      exact .token plain_comma ((Cte.balanced c).append (more_balanced cs))

end

theorem WithStatement.balanced (q : WithStatement u) : Balanced q.core := Query.balanced _

end Parentheses

section MainVerb

theorem mainVerb_plain (ht : Plain t) (hw : t.kind = .word → t.upper u ∉ cteMainVerbs) (depth : Int) :
    mainVerbFrom u depth (t :: ts) = mainVerbFrom u depth ts := by
  have hno : t.kind = .punct → t.text ≠ ['('] ∧ t.text ≠ [')'] := by
    intro hk
    simpa [Plain, Token.isPunct, hk] using And.intro ht.1 ht.2.1
  rw [mainVerbFrom]
  by_cases hk : t.kind = .punct
  · rw [if_pos hk, if_neg (hno hk).1, if_neg (hno hk).2]
  · rw [if_neg hk, if_neg fun h => hw h.2.1 h.2.2]

theorem mainVerb_deep (ht : Plain t) (depth : Nat) :
    mainVerbFrom u (depth + 1) (t :: ts) = mainVerbFrom u (depth + 1) ts := by
  have hno : t.kind = .punct → t.text ≠ ['('] ∧ t.text ≠ [')'] := by
    intro hk
    simpa [Plain, Token.isPunct, hk] using And.intro ht.1 ht.2.1
  rw [mainVerbFrom]
  by_cases hk : t.kind = .punct
  · rw [if_pos hk, if_neg (hno hk).1, if_neg (hno hk).2]
  · rw [if_neg hk, if_neg fun h => by omega]

theorem mainVerb_open (depth : Int) : mainVerbFrom u depth (mark '(' :: ts) = mainVerbFrom u (depth + 1) ts := by
  simp [mainVerbFrom]

theorem mainVerb_close (depth : Int) : mainVerbFrom u depth (mark ')' :: ts) = mainVerbFrom u (depth - 1) ts := by
  simp [mainVerbFrom]

/-- Nothing inside parentheses is the verb. -/
theorem mainVerb_inside (h : Balanced ts) (depth : Nat) :
    mainVerbFrom u (depth + 1) (ts ++ rest) = mainVerbFrom u (depth + 1) rest := by
  induction h generalizing depth rest with
  | nil => rfl
  | token ht _ ih => rw [List.cons_append, mainVerb_deep ht, ih]
  | @group ts ts' _ _ ih ih' =>
      have hin : mainVerbFrom u ((depth + 1 : Nat) + 1) (ts ++ mark ')' :: (ts' ++ rest)) =
          mainVerbFrom u ((depth + 1 : Nat) + 1) (mark ')' :: (ts' ++ rest)) := ih (depth + 1)
      rw [List.cons_append, List.append_assoc, List.cons_append, mainVerb_open, ← ih' depth]
      push_cast at hin
      rw [hin, mainVerb_close, Int.add_sub_cancel]

theorem mainVerb_enclosed (h : Balanced ts) : mainVerbFrom u 0 (enclosed ts ++ rest) = mainVerbFrom u 0 rest := by
  have hin : mainVerbFrom u ((0 : Nat) + 1) (ts ++ mark ')' :: rest) = mainVerbFrom u ((0 : Nat) + 1)
      (mark ')' :: rest) :=
    mainVerb_inside h 0
  rw [enclosed, List.cons_append, List.append_assoc, mainVerb_open]
  exact hin.trans (mainVerb_close _)

/-- A name gives its first word that reads as a verb. -/
theorem mainVerb_words (h : ∀ t ∈ ts, Plain t) : mainVerbFrom u 0 (ts ++ rest) =
    ((words u ts).find? (· ∈ cteMainVerbs)).getD (mainVerbFrom u 0 rest) := by
  induction ts with
  | nil => rfl
  | cons t ts ih =>
      have hrest := ih fun x hx => h x (List.mem_cons_of_mem _ hx)
      have ht := h t List.mem_cons_self
      by_cases hw : t.kind = .word
      · have hwords : words u (t :: ts) = t.upper u :: words u ts := by simp [words, hw]
        by_cases hv : t.upper u ∈ cteMainVerbs
        · rw [hwords, List.find?_cons_of_pos (by simpa using hv), List.cons_append, mainVerbFrom,
            if_neg (by simp [hw]), if_pos ⟨rfl, hw, hv⟩]
          rfl
        · rw [hwords, List.find?_cons_of_neg (by simpa using hv), ← hrest]
          exact mainVerb_plain ht (fun _ => hv) 0
      · have hwords : words u (t :: ts) = words u ts := by simp [words, hw]
        rw [hwords, ← hrest]
        exact mainVerb_plain ht (fun h => absurd h hw) 0

theorem keyword_skipped {word : String} (k : Keyword u word) (hw : word ∉ cteMainVerbs) :
    mainVerbFrom u 0 (k.1 :: rest) = mainVerbFrom u 0 rest :=
  mainVerb_plain (plain_of_word k.2.1) (fun _ => by rwa [k.2.2]) 0

theorem mainVerb_cte (c : Cte u) : mainVerbFrom u 0 (c.tokens ++ rest) =
    ((words u c.name.tokens).find? (· ∈ cteMainVerbs)).getD (mainVerbFrom u 0 rest) := by
  obtain ⟨name, columns, as, materialized, body⟩ := c
  have hmaterialized {rest : List Token} : mainVerbFrom u 0 (materialized.tokens ++ rest) = mainVerbFrom u 0 rest := by
    cases materialized with
    | unsaid => rfl
    | yes m => exact keyword_skipped m (by decide)
    | no n m => exact (keyword_skipped n (by decide)).trans (keyword_skipped m (by decide))
  have hcolumns {rest : List Token} : mainVerbFrom u 0 (columnTokens columns ++ rest) = mainVerbFrom u 0 rest := by
    cases columns with
    | none => rfl
    | some ts => exact mainVerb_enclosed ts.2
  rw [Cte.tokens, List.append_assoc, mainVerb_words fun t ht => (name.plain t ht).1, List.append_assoc, hcolumns,
    List.cons_append, keyword_skipped as (by decide), List.append_assoc, hmaterialized,
    mainVerb_enclosed (Query.balanced body)]
  rfl

theorem mainVerb_more (cs : List (Cte u)) : mainVerbFrom u 0 (moreTokens cs ++ rest) =
    ((words u (cs.flatMap fun c => c.name.tokens)).find? (· ∈ cteMainVerbs)).getD (mainVerbFrom u 0 rest) := by
  induction cs with
  | nil => rfl
  | cons c cs ih =>
      have hcomma : mainVerbFrom u 0 (moreTokens (c :: cs) ++ rest) =
          mainVerbFrom u 0 (c.tokens ++ (moreTokens cs ++ rest)) := by
        rw [moreTokens, List.cons_append, List.append_assoc]
        exact mainVerb_plain plain_comma (fun h => by cases h) 0
      rw [hcomma, mainVerb_cte, ih, List.flatMap_cons, words_append, List.find?_append]
      cases (words u c.name.tokens).find? (· ∈ cteMainVerbs) <;> rfl

theorem mainVerb_clause (c : Clause u) : mainVerbFrom u 0 (c.tokens ++ rest) = c.verb.upper u := by
  have hknown : c.verb.upper u ∈ cteMainVerbs := by
    have hsub : ∀ v ∈ clauseVerbs, v ∈ cteMainVerbs := by decide
    exact hsub _ c.known
  rw [Clause.tokens, List.cons_append, mainVerbFrom, if_neg (by simp [c.word]), if_pos ⟨rfl, c.word, hknown⟩]

end MainVerb

section BodyVerbs

def Break (u : Unicode) (t : Token) : Prop := t.kind = .word → t.upper u ∉ ["AS", "NOT", "MATERIALIZED"]

theorem followsAs_break {xs : List Token} (ht : Break u t) : followsAs u (xs ++ t :: before) = followsAs u xs := by
  have hread : (if t.kind = .word then t.upper u else "") ∉ ["AS", "NOT", "MATERIALIZED"] := by
    by_cases hk : t.kind = .word
    · rw [if_pos hk]
      exact ht hk
    · rw [if_neg hk]
      decide
  simp only [List.mem_cons, List.not_mem_nil, or_false, not_or] at hread
  rcases xs with _ | ⟨a, _ | ⟨b, _ | ⟨c, xs⟩⟩⟩
  · simp [followsAs, hread]
  · simp [followsAs, hread]
  · simp [followsAs, hread]
  · simp [followsAs]

theorem followsAs_without {xs : List Token} (h : ∀ t ∈ xs, ¬ (t.kind = .word ∧ t.upper u = "AS")) :
    followsAs u xs = false := by
  have hread : ∀ r ∈ (xs.take 3).map fun t => if t.kind = .word then t.upper u else "", r ≠ "AS" := by
    intro r hr
    obtain ⟨t, ht, rfl⟩ := List.mem_map.1 hr
    have hno := h t (List.mem_of_mem_take ht)
    by_cases hk : t.kind = .word
    · rw [if_pos hk]
      exact fun he => hno ⟨hk, he⟩
    · rw [if_neg hk]
      decide
  have hsub (pattern : List String) (hp : "AS" ∈ pattern) (n : Nat) :
      ((xs.take 3).map fun t => if t.kind = .word then t.upper u else "").take n ≠ pattern := by
    rintro rfl
    exact hread _ (List.mem_of_mem_take hp) rfl
  have hwhole := hsub ["MATERIALIZED", "NOT", "AS"] (by decide) 3
  rw [List.take_of_length_le (by simp)] at hwhole
  simp only [followsAs, Bool.or_eq_false_iff, decide_eq_false_iff_not]
  exact ⟨⟨hsub ["AS"] (by decide) 1, hsub ["MATERIALIZED", "AS"] (by decide) 2⟩, hwhole⟩

theorem bodyVerbs_plain (hopen : t.isPunct '(' = false) (hclose : t.isPunct ')' = false) (depth : Int) :
    bodyVerbsFrom u before depth (t :: ts) = bodyVerbsFrom u (t :: before) depth ts := by
  rw [bodyVerbsFrom.eq_def]
  simp only [hopen, hclose, Bool.false_eq_true, if_false]

theorem bodyVerbs_close {closing : Token} (hc : closing.isPunct ')' = true) (depth : Int) :
    bodyVerbsFrom u before depth (closing :: ts) = bodyVerbsFrom u (closing :: before) (depth - 1) ts := by
  have hno : closing.isPunct '(' = false := by
    rw [isPunct_iff] at hc
    simp only [shape, Prod.mk.injEq] at hc
    simp [Token.isPunct, hc]
  rw [bodyVerbsFrom.eq_def]
  simp only [hno, hc, Bool.false_eq_true, if_false, if_true]

def OpensBody (u : Unicode) (before ts : List Token) : Prop :=
  followsAs u before = true ∧ ∃ t ∈ ts.head?, t.kind = .word ∧ t.upper u ∈ cteBodyDmlVerbs

theorem bodyVerbs_open {opening : Token} (ho : opening.isPunct '(' = true) (depth : Int) :
    bodyVerbsFrom u before depth (opening :: ts) ≠ [] ↔
      (depth = 0 ∧ OpensBody u before ts) ∨ bodyVerbsFrom u (opening :: before) (depth + 1) ts ≠ [] := by
  rw [bodyVerbsFrom.eq_def]
  simp only [ho, if_true]
  cases ts with
  | nil => simp [OpensBody]
  | cons t ts =>
      simp only [OpensBody, List.head?_cons, Option.mem_def, Option.some.injEq, exists_eq_left']
      by_cases hd : depth = 0 ∧ followsAs u before = true ∧ t.kind = .word ∧ t.upper u ∈ cteBodyDmlVerbs
      · rw [if_pos hd]
        simp [hd]
      · rw [if_neg hd]
        simp [hd]

theorem bodyVerbs_inside (h : Balanced ts) (depth : Nat) : bodyVerbsFrom u before (depth + 1) (ts ++ rest) ≠ [] ↔
    bodyVerbsFrom u (ts.reverse ++ before) (depth + 1) rest ≠ [] := by
  induction h generalizing before depth rest with
  | nil => rfl
  | token ht _ ih =>
      rw [List.cons_append, bodyVerbs_plain ht.1 ht.2.1, ih]
      simp
  | @group ts ts' _ _ ih ih' =>
      have hin : bodyVerbsFrom u (mark '(' :: before) ((depth + 1 : Nat) + 1) (ts ++ mark ')' :: (ts' ++ rest)) ≠ [] ↔
          bodyVerbsFrom u (ts.reverse ++ mark '(' :: before) ((depth + 1 : Nat) + 1) (mark ')' :: (ts' ++ rest)) ≠ [] :=
        ih (depth + 1)
      push_cast at hin
      have hdeep : (depth : Int) + 1 ≠ 0 := by omega
      rw [List.cons_append, List.append_assoc, List.cons_append, bodyVerbs_open rfl, or_iff_right fun h => hdeep h.1,
        hin, bodyVerbs_close rfl, Int.add_sub_cancel, ih' depth]
      simp

/-- Parentheses add what their opening adds. -/
theorem bodyVerbs_enclosed (h : Balanced ts) : bodyVerbsFrom u before 0 (enclosed ts ++ rest) ≠ [] ↔
    OpensBody u before ts ∨ bodyVerbsFrom u ((enclosed ts).reverse ++ before) 0 rest ≠ [] := by
  have hhead : OpensBody u before (ts ++ mark ')' :: rest) ↔ OpensBody u before ts := by
    cases ts with
    | nil => simp [OpensBody]
    | cons t ts => rfl
  have hin : bodyVerbsFrom u (mark '(' :: before) ((0 : Nat) + 1) (ts ++ mark ')' :: rest) ≠ [] ↔
      bodyVerbsFrom u (ts.reverse ++ mark '(' :: before) ((0 : Nat) + 1) (mark ')' :: rest) ≠ [] :=
    bodyVerbs_inside h 0
  rw [bodyVerbs_close rfl] at hin
  rw [enclosed, List.cons_append, List.append_assoc, bodyVerbs_open rfl, List.singleton_append, hhead,
    and_iff_right rfl]
  refine or_congr_right (hin.trans ?_)
  simp

theorem bodyVerbs_words (h : ∀ t ∈ ts, Plain t) (depth : Int) :
    bodyVerbsFrom u before depth (ts ++ rest) = bodyVerbsFrom u (ts.reverse ++ before) depth rest := by
  induction ts generalizing before with
  | nil => rfl
  | cons t ts ih =>
      have ht := h t List.mem_cons_self
      rw [List.cons_append, bodyVerbs_plain ht.1 ht.2.1, ih fun x hx => h x (List.mem_cons_of_mem _ hx)]
      simp

theorem bare_iff (c : Cte u) : Bare c ↔ ∃ t ∈ c.body.tokens.head?, t.kind = .word ∧ t.upper u ∈ cteBodyDmlVerbs := by
  obtain ⟨name, columns, as, materialized, body⟩ := c
  cases body with
  | plain main =>
      simp only [Bare, Cte.body, Query.tokens, Clause.tokens, List.head?_cons, Option.mem_def, Option.some.injEq,
        exists_eq_left', main.word, true_and]
      rfl
  | under opening recursive first more main =>
      have hno : opening.1.upper u ∉ cteBodyDmlVerbs := by
        rw [opening.2.2]
        decide
      simp [Bare, Cte.body, Query.tokens, hno]

theorem bodyVerbs_cte (c : Cte u) (ht : Break u t) : bodyVerbsFrom u (t :: before) 0 (c.tokens ++ rest) ≠ [] ↔
    Bare c ∨ bodyVerbsFrom u (c.tokens.reverse ++ t :: before) 0 rest ≠ [] := by
  rw [bare_iff]
  obtain ⟨name, columns, as, materialized, body⟩ := c
  have hname : followsAs u (name.tokens.reverse ++ t :: before) = false := by
    rw [followsAs_break ht]
    exact followsAs_without fun x hx => (name.plain x (List.mem_reverse.1 hx)).2
  have hcolumns {rest : List Token} :
      bodyVerbsFrom u (name.tokens.reverse ++ t :: before) 0 (columnTokens columns ++ rest) ≠ [] ↔
        bodyVerbsFrom u ((columnTokens columns).reverse ++ (name.tokens.reverse ++ t :: before)) 0 rest ≠ [] := by
    cases columns with
    | none => rfl
    | some ts =>
        rw [columnTokens, bodyVerbs_enclosed ts.2]
        exact or_iff_right fun h => by simp [OpensBody, hname] at h
  have hplain : ∀ x ∈ as.1 :: materialized.tokens, Plain x := by
    intro x hx
    obtain rfl | hx := List.mem_cons.1 hx
    · exact plain_of_word as.2.1
    · exact materialized_plain x hx
  have hfollows (seen : List Token) : followsAs u (materialized.tokens.reverse ++ as.1 :: seen) = true := by
    have hword {w : String} (k : Keyword u w) : (if k.1.kind = .word then k.1.upper u else "") = w := by
      rw [if_pos k.2.1, k.2.2]
    cases materialized with
    | unsaid => simp [followsAs, Materialized.tokens, hword]
    | yes m => simp [followsAs, Materialized.tokens, hword]
    | no n m => simp [followsAs, Materialized.tokens, hword]
  have hbody (seen : List Token) : OpensBody u (materialized.tokens.reverse ++ as.1 :: seen) body.tokens ↔
      ∃ x ∈ body.tokens.head?, x.kind = .word ∧ x.upper u ∈ cteBodyDmlVerbs :=
    and_iff_right (hfollows seen)
  have hsplit : (Cte.mk name columns as materialized body).tokens ++ rest = name.tokens ++ (columnTokens columns ++
      ((as.1 :: materialized.tokens) ++ (enclosed body.tokens ++ rest))) := by
    simp [Cte.tokens]
  have hreverse : (Cte.mk name columns as materialized body).tokens.reverse ++ t :: before =
      (enclosed body.tokens).reverse ++ ((materialized.tokens.reverse ++ as.1 ::
        ((columnTokens columns).reverse ++ (name.tokens.reverse ++ t :: before)))) := by
    simp [Cte.tokens]
  rw [hsplit, hreverse, bodyVerbs_words fun x hx => (name.plain x hx).1, hcolumns, bodyVerbs_words hplain]
  rw [List.reverse_cons, List.append_assoc, List.singleton_append, bodyVerbs_enclosed (Query.balanced body), hbody]
  rfl

theorem break_comma : Break u (mark ',') := fun h => by cases h

theorem bodyVerbs_more (cs : List (Cte u)) : bodyVerbsFrom u before 0 (moreTokens cs ++ rest) ≠ [] ↔
    (∃ c ∈ cs, Bare c) ∨ bodyVerbsFrom u ((moreTokens cs).reverse ++ before) 0 rest ≠ [] := by
  induction cs generalizing before with
  | nil => simp [moreTokens]
  | cons c cs ih =>
      have hreverse : (moreTokens (c :: cs)).reverse ++ before =
          (moreTokens cs).reverse ++ (c.tokens.reverse ++ mark ',' :: before) := by
        simp [moreTokens]
      rw [hreverse, moreTokens, List.cons_append, List.append_assoc, bodyVerbs_plain plain_comma.1 plain_comma.2.1,
        bodyVerbs_cte c break_comma, ih, List.exists_mem_cons_iff, or_assoc]

def Opens (u : Unicode) (seen : List Token) (depth : Int) (ts : List Token) : Prop :=
  ∃ before opening t after, ts = before ++ opening :: t :: after ∧ depth + level before = 0 ∧
    opening.isPunct '(' = true ∧ followsAs u (before.reverse ++ seen) = true ∧ t.kind = .word ∧ t.upper u ∈ dmlVerbs

theorem opens_cons (depth : Int) : Opens u before depth (t :: ts) ↔
    (depth = 0 ∧ t.isPunct '(' = true ∧ OpensBody u before ts) ∨ Opens u (t :: before) (depth + level [t]) ts := by
  constructor
  · rintro ⟨front, opening, x, after, hsplit, hlevel, hopen, hfollows, hx⟩
    cases front with
    | nil =>
        obtain ⟨rfl, rfl⟩ := List.cons.inj hsplit
        exact .inl ⟨by simpa [level] using hlevel, hopen, hfollows, x, rfl, hx⟩
    | cons y front =>
        obtain ⟨rfl, rfl⟩ := List.cons.inj hsplit
        refine .inr ⟨front, opening, x, after, rfl, ?_, hopen, by simpa using hfollows, hx⟩
        simp only [level] at hlevel ⊢
        omega
  · rintro (⟨hd, hopen, hfollows, x, hx, hword⟩ | ⟨front, opening, x, after, rfl, hlevel, hopen, hfollows, hx⟩)
    · obtain ⟨after, rfl⟩ : ∃ after, ts = x :: after := by
        cases ts with
        | nil => cases hx
        | cons y ts =>
            cases hx
            exact ⟨ts, rfl⟩
      exact ⟨[], t, x, after, rfl, by simp [level, hd], hopen, hfollows, hword⟩
    · refine ⟨t :: front, opening, x, after, rfl, ?_, hopen, by simpa using hfollows, hx⟩
      simp only [level] at hlevel ⊢
      omega

theorem bodyVerbs_iff (depth : Int) : bodyVerbsFrom u before depth ts ≠ [] ↔ Opens u before depth ts := by
  induction ts generalizing before depth with
  | nil => simp [bodyVerbsFrom, Opens]
  | cons t ts ih =>
      rw [opens_cons]
      by_cases hopen : t.isPunct '(' = true
      · rw [bodyVerbs_open hopen, ih]
        simp [level, hopen]
      · rw [Bool.not_eq_true] at hopen
        by_cases hclose : t.isPunct ')' = true
        · rw [bodyVerbs_close hclose, ih]
          simp [level, hopen, hclose, Int.sub_eq_add_neg]
        · rw [Bool.not_eq_true] at hclose
          rw [bodyVerbs_plain hopen hclose, ih]
          simp [level, hopen, hclose]

theorem break_verb (c : Clause u) : Break u c.verb := by
  intro _
  have hno : ∀ v ∈ clauseVerbs, v ∉ ["AS", "NOT", "MATERIALIZED"] := by decide
  exact hno _ c.known

theorem bodyVerbs_clause (c : Clause u) : bodyVerbsFrom u before 0 c.tokens ≠ [] ↔ Lookalike u c.rest := by
  have hplain := plain_of_word c.word
  rw [Clause.tokens, bodyVerbs_plain hplain.1 hplain.2.1, bodyVerbs_iff]
  simp only [Opens, Lookalike, Int.zero_add, followsAs_break (break_verb c)]

end BodyVerbs

section Whole

variable (q : WithStatement u)

theorem closing_ending : Closing q.ending := by
  intro t ht
  unfold WithStatement.ending at ht
  split at ht
  · obtain rfl := List.mem_singleton.1 ht
    exact ⟨';', by decide, by decide, rfl⟩
  · cases ht

theorem mainVerb_core : mainVerbFrom u 0 (q.core ++ rest) =
    ((words u (q.ctes.flatMap fun c => c.name.tokens)).find? (· ∈ cteMainVerbs)).getD (q.main.verb.upper u) := by
  have hrecursive {rest : List Token} :
      mainVerbFrom u 0 (recursiveTokens q.recursive ++ rest) = mainVerbFrom u 0 rest := by
    cases q.recursive with
    | none => rfl
    | some r => exact keyword_skipped r (by decide)
  rw [WithStatement.core, Query.tokens, List.cons_append, keyword_skipped q.opening (by decide), List.append_assoc,
    hrecursive, List.append_assoc, mainVerb_cte, List.append_assoc, mainVerb_more, mainVerb_clause, WithStatement.ctes,
    List.flatMap_cons, words_append, List.find?_append]
  cases (words u q.first.name.tokens).find? (· ∈ cteMainVerbs) <;> rfl

theorem cteMainVerb_tokens : cteMainVerb u q.tokens = q.seen := by
  rw [WithStatement.tokens, cteMainVerb_closing (closing_ending q), cteMainVerb, WithStatement.seen]
  match q.wraps with
  | 0 =>
      have hcore : mainVerbFrom u 0 (q.core ++ []) = _ := mainVerb_core q
      rw [List.append_nil, WithStatement.core, Query.tokens, keyword_skipped q.opening (by decide)] at hcore
      exact hcore
  | 1 => exact mainVerb_core q
  | n + 2 =>
      have hin : mainVerbFrom u 0 (enclosed (wrapped n q.core) ++ [mark ')']) = mainVerbFrom u 0 [mark ')'] :=
        mainVerb_enclosed (q.balanced.wrapped n)
      have hclose : mainVerbFrom u 0 [mark ')'] = "" := mainVerb_close 0
      rw [if_neg (by omega)]
      exact hin.trans hclose

theorem bodyVerbs_core : bodyVerbsFrom u [] 0 q.core ≠ [] ↔ (∃ c ∈ q.ctes, Bare c) ∨ Lookalike u q.main.rest := by
  have hopening := plain_of_word q.opening.2.1
  have hopens : Break u q.opening.1 := fun _ => by
    rw [q.opening.2.2]
    decide
  rw [WithStatement.core, Query.tokens, bodyVerbs_plain hopening.1 hopening.2.1, WithStatement.ctes,
    List.exists_mem_cons_iff, or_assoc]
  cases q.recursive with
  | none => rw [recursiveTokens, List.nil_append, bodyVerbs_cte _ hopens, bodyVerbs_more, bodyVerbs_clause]
  | some r =>
      have hplain := plain_of_word r.2.1
      have hbreak : Break u r.1 := fun _ => by
        rw [r.2.2]
        decide
      rw [recursiveTokens, List.singleton_append, bodyVerbs_plain hplain.1 hplain.2.1, bodyVerbs_cte _ hbreak,
        bodyVerbs_more, bodyVerbs_clause]

theorem cteBodyVerbs_tokens : cteBodyVerbs u q.tokens ≠ [] ↔
    q.wraps = 0 ∧ ((∃ c ∈ q.ctes, Bare c) ∨ Lookalike u q.main.rest) := by
  rw [WithStatement.tokens, cteBodyVerbs, bodyVerbsFrom_closing (closing_ending q)]
  match q.wraps with
  | 0 => simp [wrapped, bodyVerbs_core]
  | n + 1 =>
      have henclosed : bodyVerbsFrom u [] 0 (enclosed (wrapped n q.core) ++ []) ≠ [] ↔
          OpensBody u [] (wrapped n q.core) ∨
          bodyVerbsFrom u ((enclosed (wrapped n q.core)).reverse ++ []) 0 [] ≠ [] :=
        bodyVerbs_enclosed (q.balanced.wrapped n)
      have hfirst : ¬ OpensBody u [] (wrapped n q.core) := fun h => by simp [OpensBody, followsAs] at h
      rw [List.append_nil, or_iff_right hfirst] at henclosed
      rw [wrapped, henclosed]
      simp [bodyVerbsFrom]

theorem wrapped_append (n : Nat) (ts : List Token) :
    wrapped n ts = List.replicate n (mark '(') ++ (ts ++ List.replicate n (mark ')')) := by
  induction n with
  | zero => simp [wrapped]
  | succ n ih =>
      rw [wrapped, ih, enclosed, List.replicate_succ, List.replicate_succ' (a := mark ')')]
      simp

theorem lead_tokens : ∃ rest, q.tokens = List.replicate q.wraps (mark '(') ++ q.opening.1 :: rest := by
  rw [WithStatement.tokens, wrapped_append, WithStatement.core, Query.tokens, List.append_assoc, List.cons_append]
  exact ⟨_, rfl⟩

theorem head_tokens : ∃ t tail, q.tokens = t :: tail ∧ (t = mark '(' ∨ t = q.opening.1) := by
  obtain ⟨rest, hrest⟩ := lead_tokens q
  cases hn : q.wraps with
  | zero => exact ⟨q.opening.1, rest, by rw [hrest, hn]; rfl, .inr rfl⟩
  | succ n => exact ⟨mark '(', _, by rw [hrest, hn, List.replicate_succ, List.cons_append], .inl rfl⟩

theorem last_core : ∃ front t, q.core = front ++ [t] ∧ t.isPunct '/' = false := by
  have hmain : ∃ front t, q.main.tokens = front ++ [t] ∧ t.isPunct '/' = false := by
    cases hlast : q.main.rest.getLast? with
    | none =>
        rw [List.getLast?_eq_none_iff] at hlast
        exact ⟨[], q.main.verb, by rw [Clause.tokens, hlast]; rfl, by simp [Token.isPunct, q.main.word]⟩
    | some t =>
        obtain ⟨front, hfront⟩ := List.getLast?_eq_some_iff.1 hlast
        exact ⟨q.main.verb :: front, t, by rw [Clause.tokens, hfront]; rfl, q.main.ended t hlast⟩
  obtain ⟨front, t, hfront, ht⟩ := hmain
  refine ⟨q.opening.1 :: (recursiveTokens q.recursive ++ (q.first.tokens ++ (moreTokens q.more ++ front))), t, ?_, ht⟩
  rw [WithStatement.core, Query.tokens, hfront]
  simp

theorem last_tokens : ∃ front t, q.tokens = front ++ [t] ∧ t.isPunct '/' = false := by
  rw [WithStatement.tokens, WithStatement.ending]
  cases q.terminated with
  | true => exact ⟨_, _, rfl, rfl⟩
  | false =>
      simp only [Bool.false_eq_true, if_false, List.append_nil]
      match q.wraps with
      | 0 => exact last_core q
      | n + 1 => exact ⟨mark '(' :: wrapped n q.core, mark ')', rfl, rfl⟩

theorem terminator_last : ∃ front, q.tokens = front ++ q.ending ∧ ∀ t ∈ front, t.isPunct ';' = false :=
  ⟨_, rfl, (q.balanced.wrapped q.wraps).no_terminator⟩

end Whole

end Migr8.CommonTables
