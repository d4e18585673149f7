import Migr8.Database
import Migr8.Errors
import Migr8.Characters
import Migr8.Lib.Expressions
import Mathlib.Data.List.Infix
import Mathlib.Data.List.Pairwise

namespace Migr8.IndexDefinitions

open Characters Lib.Expressions
open Database (ObjectName)
open Errors (pyRepr)

section Code

variable (u : Unicode)

def kept (dropParens : Bool) (c : Char) : Bool :=
  !(u.isSpace c || c = '"' || dropParens && (c = '(' || c = ')'))

def compactDefinition (text : Text) (dropParens : Bool) : Text := (u.upper text).filter (kept u dropParens)

def activeIndexColumn : String := "status"

def activeIndexPredicate : String := "status = 'ACTIVE'"

def supportedActiveIndexPredicates : List Text :=
  [activeIndexPredicate, "(status)::text = 'ACTIVE'::text"].map fun text => compactDefinition u text.toList true

/-- One row of `pg_index` with the names it refers to. -/
structure PostgresIndex where
  unique : Bool
  valid : Bool
  ready : Bool
  definition : String
  tableName : String
  columns : Nat
  predicate : Option Text
  indexed : Option String

def postgresProblems (present : List ObjectName) (index : Option PostgresIndex) : List String :=
  if present.contains .activeIndex then
    match index with
    | none => [Model.activeIndex ++ " is not visible in pg_index"]
    | some row =>
        (if row.tableName ≠ Model.historyTable then
          [Model.activeIndex ++ " is on " ++ row.tableName ++ ", not " ++ Model.historyTable] else []) ++
        (if !row.unique then [Model.activeIndex ++ " is not UNIQUE"] else []) ++
        (if !row.valid || !row.ready then [Model.activeIndex ++ " is not valid and ready"] else []) ++
        (if row.columns ≠ 1 ∨ row.indexed.getD "" ≠ activeIndexColumn then
          [Model.activeIndex ++ " indexes (" ++ row.indexed.getD "None" ++ "), not exactly (" ++
            activeIndexColumn ++ "): " ++ pyRepr row.definition] else []) ++
        (if (supportedActiveIndexPredicates u).contains (compactDefinition u (row.predicate.getD []) true) then []
          else [Model.activeIndex ++ " is not restricted to " ++ activeIndexPredicate ++ ": " ++
            pyRepr row.definition])
  else []

def activeIndexExpression : String := "CASE WHEN status = 'ACTIVE' THEN 1 END"

def supportedActiveIndexExpressions : List Text :=
  [activeIndexExpression, "CASE \"STATUS\" WHEN 'ACTIVE' THEN 1 END"].map fun text =>
    compactDefinition u text.toList false

/-- One row of `ALL_INDEXES`, with the expressions and the number of columns of the index. -/
structure OracleIndex where
  uniqueness : String
  status : String
  funcidxStatus : Option String
  tableName : String
  expressions : List Text
  columnCount : Nat

def rendered (expressions : List Text) : Text := [' '].intercalate expressions

def oracleProblems (present : List ObjectName) (index : Option OracleIndex) : List String :=
  if present.contains .activeIndex then
    match index with
    | none => [Model.activeIndex ++ " is not visible in ALL_INDEXES"]
    | some row =>
        (if row.tableName ≠ Model.historyTable.toUpper then
          [Model.activeIndex ++ " is on " ++ row.tableName ++ ", not " ++ Model.historyTable] else []) ++
        (if row.uniqueness ≠ "UNIQUE" then
          [Model.activeIndex ++ " is " ++ row.uniqueness ++ ", not UNIQUE"] else []) ++
        (if row.status ≠ "VALID" then
          [Model.activeIndex ++ " status is " ++ row.status ++ ", not VALID"] else []) ++
        (if row.funcidxStatus.any (· ≠ "ENABLED") then
          [Model.activeIndex ++ " function-based status is " ++ row.funcidxStatus.getD "None" ++ ", not ENABLED"]
          else []) ++
        (if row.columnCount ≠ 1 ∨ row.expressions.length ≠ 1 then
          [Model.activeIndex ++ " indexes " ++ toString row.columnCount ++ " column(s) over " ++
            toString row.expressions.length ++ " expression(s); the supported layout indexes exactly one expression"]
          else []) ++
        (if (supportedActiveIndexExpressions u).contains (compactDefinition u (rendered row.expressions) false) then []
          else [Model.activeIndex ++ " does not carry the supported one-ACTIVE expression (" ++
            activeIndexExpression ++ "): " ++ pyRepr (String.ofList (rendered row.expressions)) ++
            ". Only a constant key makes two ACTIVE rows collide; an expression that merely mentions the column and the " ++
            "value can yield a distinct key per row and enforce nothing."])
  else []

def PostgresIndex.Accepted (index : PostgresIndex) : Prop :=
  ∃ present : List ObjectName, present.contains .activeIndex = true ∧ postgresProblems u present (some index) = []

def OracleIndex.Accepted (index : OracleIndex) : Prop :=
  ∃ present : List ObjectName, present.contains .activeIndex = true ∧ oracleProblems u present (some index) = []

end Code

section Meaning

structure Row where
  status : Text
  other : Text → Value

def Row.value (column : Text) (row : Row) (name : Text) : Value :=
  if name = column then .text row.status else row.other name

def active : Text := ['A', 'C', 'T', 'I', 'V', 'E']

def Row.isActive (row : Row) : Prop := row.status = active

/-- PostgreSQL folds a bare name to lower case, Oracle to upper case. -/
def postgresValue (C : Catalog) (e : Expr .value) (row : Row) : Value :=
  eval Char.toLower C (row.value activeIndexColumn.toList) e

def oracleColumn : Text := ['S', 'T', 'A', 'T', 'U', 'S']

def oracleValue (C : Catalog) (e : Expr .value) (row : Row) : Value := eval Char.toUpper C (row.value oracleColumn) e

/-- The rows that a unique index of PostgreSQL lets stand side by side. -/
def PostgresIndex.Stores (index : PostgresIndex) (C : Catalog) (e : Expr .value) (rows : List Row) : Prop :=
  index.unique = true → index.valid = true → index.ready = true → index.tableName = Model.historyTable →
    rows.Pairwise fun a b =>
      ¬ (postgresValue C e a = .bool true ∧ postgresValue C e b = .bool true ∧
        index.columns = 1 ∧ ∃ v ≠ Value.null, ∀ row ∈ [a, b],
          row.value activeIndexColumn.toList (index.indexed.getD "").toList = v)

/-- Rows whose one key is NULL are not in an index of Oracle. -/
def OracleIndex.Stores (index : OracleIndex) (C : Catalog) (e : Expr .value) (rows : List Row) : Prop :=
  index.uniqueness = "UNIQUE" → index.status = "VALID" → index.funcidxStatus.all (· = "ENABLED") = true →
    index.tableName = Model.historyTable.toUpper →
    rows.Pairwise fun a b => ¬ ∃ v ≠ Value.null, oracleValue C e a = v ∧ oracleValue C e b = v

def OneActive (rows : List Row) : Prop := rows.Pairwise fun a b => ¬ (a.isActive ∧ b.isActive)

end Meaning

section Keys

variable (u : Unicode)

def plainKey (t : Text) : Text := (t.map Char.toUpper).filter fun c =>
    !(isAsciiSpace c || c = '"' || (c = '(' || c = ')'))

theorem compact_append (s t : Text) (b : Bool) :
    compactDefinition u (s ++ t) b = compactDefinition u s b ++ compactDefinition u t b := by
  simp only [compactDefinition, Unicode.upper, List.flatMap_append, List.filter_append]

theorem ofNat_toUpper_lt : ∀ n < 128, (Char.ofNat n).toUpper.toNat < 128 := by decide

theorem toUpper_lt {c : Char} (h : c.toNat < 128) : c.toUpper.toNat < 128 := by
  have hc := ofNat_toUpper_lt c.toNat h
  rwa [Char.ofNat_toNat] at hc

theorem compact_plain {t : Text} (h : ∀ c ∈ t, c.toNat < 128) : compactDefinition u t true = plainKey t := by
  induction t with
  | nil => rfl
  | cons c t ih =>
      have hc := h c List.mem_cons_self
      have hu : u.upper (c :: t) = c.toUpper :: u.upper t := by
        rw [Unicode.upper, List.flatMap_cons, u.ascii_upper c hc]
        rfl
      have hk : kept u true c.toUpper =
          !(isAsciiSpace c.toUpper || c.toUpper = '"' || (c.toUpper = '(' || c.toUpper = ')')) := by
        rw [kept, u.ascii_space _ (toUpper_lt hc), Bool.true_and]
      have ih' : (u.upper t).filter (kept u true) = plainKey t := ih fun d hd => h d (List.mem_cons_of_mem _ hd)
      rw [compactDefinition, hu, plainKey, List.map_cons, List.filter_cons, List.filter_cons, hk, ih']
      rfl

/-- Dropping the parentheses as well. -/
theorem compact_drop (t : Text) :
    compactDefinition u t true = (compactDefinition u t false).filter fun c => !(c = '(' || c = ')') := by
  rw [compactDefinition, compactDefinition, List.filter_filter]
  congr 1
  funext c
  simp only [kept, Bool.true_and, Bool.false_and, Bool.or_false, Bool.not_or]
  rw [Bool.and_comm]

def key {p : Part} (e : Expr p) : Text := (tokens e).flatMap fun t => compactDefinition u t.text true

theorem compact_blank {t : Text} (h : t.all isBlank = true) : compactDefinition u t true = [] := by
  have hc : ∀ c ∈ t, c = ' ' ∨ c = '\t' ∨ c = '\n' ∨ c = '\r' := by
    intro c hc
    have hb := List.all_eq_true.1 h c hc
    simpa only [isBlank, Bool.or_eq_true, decide_eq_true_eq, or_assoc] using hb
  rw [compact_plain u fun c hm => by rcases hc c hm with rfl | rfl | rfl | rfl <;> decide, plainKey,
    List.filter_eq_nil_iff]
  intro c hm
  obtain ⟨d, hd, rfl⟩ := List.mem_map.1 hm
  rcases hc d hd with rfl | rfl | rfl | rfl <;> decide

theorem compact_lay (gaps : Nat → Blank) (ts : List Token) :
    compactDefinition u (lay gaps ts) true = ts.flatMap fun t => compactDefinition u t.text true := by
  induction ts generalizing gaps with
  | nil => exact compact_blank u (gaps 0).2
  | cons t ts ih =>
      have hj : compactDefinition u (joint t ts (gaps 0)) true = [] := by
        unfold joint
        split
        · exact compact_blank u rfl
        · exact compact_blank u (gaps 0).2
      rw [lay, compact_append, compact_append, hj, List.append_nil, ih, List.flatMap_cons]

/-- A name that folds to upper case as the text does has the text as its key. -/
theorem compact_of_toUpper {s t : Text} (h : s.map Char.toUpper = t) (ht : ∀ c ∈ t, c.toNat < 128) :
    compactDefinition u s true = plainKey s := by
  apply compact_plain
  intro c hc
  by_contra hn
  have hu := ht _ (h ▸ List.mem_map_of_mem hc)
  rw [toUpper_other hn] at hu
  exact hn hu

theorem compact_upper {t : Text} (h : t.all (fun c => decide (c.toNat < 128)) = true) :
    compactDefinition u t true = plainKey t := compact_plain u (forall_of_all h)

/-- The key of a concrete word. -/
theorem compact_word {t k : Text} (h : t.all (fun c => decide (c.toNat < 128)) = true) (hk : plainKey t = k) :
    compactDefinition u t true = k := (compact_upper u h).trans hk

theorem key_paren (e : Expr .value) : key u (.paren e) = key u e := by
  have ho : compactDefinition u ['('] true = [] := compact_word u rfl rfl
  have hc : compactDefinition u [')'] true = [] := compact_word u rfl rfl
  rw [key, tokens_paren, List.cons_append, List.flatMap_cons, List.flatMap_append, List.flatMap_singleton, ho, hc,
    List.nil_append, List.append_nil]
  rfl

def wordKey (w : Word) : Text := w.tokens.flatMap fun t => compactDefinition u t.text true

theorem key_before (w : Word) (e : Expr .value) : key u (.before w e) = wordKey u w ++ key u e := by
  rw [key, tokens_before, List.flatMap_append]
  rfl

theorem key_between (w : Word) (l r : Expr .value) :
    key u (.between w l r) = key u l ++ wordKey u w ++ key u r := by
  rw [key, tokens_between, List.flatMap_append, List.flatMap_append]
  rfl

theorem key_after (e : Expr .value) (w : Word) : key u (.after e w) = key u e ++ wordKey u w := by
  rw [key, tokens_after, List.flatMap_append]
  rfl

theorem key_cast (e : Expr .value) (type : Name) :
    key u (.cast e type) = key u e ++ [':', ':'] ++ compactDefinition u type.token.text true := by
  have h : compactDefinition u [':', ':'] true = [':', ':'] := compact_word u rfl rfl
  rw [key, tokens_cast, List.flatMap_append, List.flatMap_cons, List.flatMap_singleton, h, List.append_assoc]
  rfl

theorem key_searched (arms : Expr .arms) :
    key u (.searched arms) = ['C', 'A', 'S', 'E'] ++ key u arms ++ ['E', 'N', 'D'] := by
  have ho : compactDefinition u ['C', 'A', 'S', 'E'] true = ['C', 'A', 'S', 'E'] := compact_word u rfl rfl
  have hc : compactDefinition u ['E', 'N', 'D'] true = ['E', 'N', 'D'] := compact_word u rfl rfl
  rw [key, tokens_searched, keyword, keyword, List.flatMap_append, List.flatMap_cons, List.flatMap_singleton, ho, hc]
  rfl

theorem key_simple (e : Expr .value) (arms : Expr .arms) :
    key u (.simple e arms) = ['C', 'A', 'S', 'E'] ++ key u e ++ key u arms ++ ['E', 'N', 'D'] := by
  have ho : compactDefinition u ['C', 'A', 'S', 'E'] true = ['C', 'A', 'S', 'E'] := compact_word u rfl rfl
  have hc : compactDefinition u ['E', 'N', 'D'] true = ['E', 'N', 'D'] := compact_word u rfl rfl
  rw [key, tokens_simple, keyword, keyword, List.flatMap_append, List.flatMap_append, List.flatMap_cons,
    List.flatMap_singleton, ho, hc]
  rfl

theorem key_otherwise (e : Expr .value) : key u (.otherwise e) = ['E', 'L', 'S', 'E'] ++ key u e := by
  have h : compactDefinition u ['E', 'L', 'S', 'E'] true = ['E', 'L', 'S', 'E'] := compact_word u rfl rfl
  rw [key, tokens_otherwise, keyword, List.flatMap_cons, h]
  rfl

theorem key_arm (c r : Expr .value) (rest : Expr .arms) :
    key u (.arm c r rest) = ['W', 'H', 'E', 'N'] ++ key u c ++ ['T', 'H', 'E', 'N'] ++ key u r ++ key u rest := by
  have hw : compactDefinition u ['W', 'H', 'E', 'N'] true = ['W', 'H', 'E', 'N'] := compact_word u rfl rfl
  have ht : compactDefinition u ['T', 'H', 'E', 'N'] true = ['T', 'H', 'E', 'N'] := compact_word u rfl rfl
  rw [key, tokens_arm, keyword, keyword, List.flatMap_append, List.flatMap_append, List.flatMap_cons,
    List.flatMap_cons, hw, ht, ← List.append_assoc]
  rfl

end Keys

section Comparisons

def nothing : Catalog :=
  ⟨fun _ => .null, fun _ _ => .null, fun _ _ => .null, fun _ _ _ => .null, fun _ _ => .null, fun _ _ => .null⟩

def sole (status : Text) : Row := ⟨status, fun _ => .null⟩

variable (fold : Char → Char) (column : Text)

def IsColumn (e : Expr .value) : Prop := ∃ name, core fold e = .column name ∧ name.resolve fold = column

/-- The status column is compared with the literal `ACTIVE`. -/
def Compares (l r : Expr .value) : Prop :=
  IsColumn fold column l ∧ core fold r = .literal active ∨ core fold l = .literal active ∧ IsColumn fold column r

def ComparesActive (e : Expr .value) : Prop := ∃ l r, unwrap e = .between equalSign l r ∧ Compares fold column l r

variable {fold column} {u : Unicode} {C : Catalog} {row : Row} {e l r : Expr .value} {s v : Text}

theorem IsColumn.value (h : IsColumn fold column e) : eval fold C (row.value column) e = Value.text row.status := by
  obtain ⟨name, hc, hn⟩ := h
  apply eval_of_core hc nofun
  rw [eval_column, Row.value, if_pos hn]

theorem eval_literal (h : core fold e = .literal v) : eval fold C (row.value column) e = Value.text v :=
  eval_of_core h nofun rfl

theorem Compares.value (h : Compares fold column l r) :
    equals C (eval fold C (row.value column) l) (eval fold C (row.value column) r) =
      .bool (row.status = active) := by
  rcases h with ⟨hl, hr⟩ | ⟨hl, hr⟩
  · rw [hl.value, eval_literal hr, equals_text]
  · rw [eval_literal hl, hr.value, equals_text, decide_eq_decide.2 eq_comm]

theorem ComparesActive.value (h : ComparesActive fold column e) :
    eval fold C (row.value column) e = Value.bool (row.status = active) := by
  obtain ⟨l, r, he, hlr⟩ := h
  rw [← eval_unwrap, he, eval_equalSign]
  exact hlr.value

def caseWord : Text := ['C', 'A', 'S', 'E']

def endWord : Text := ['E', 'N', 'D']

theorem equals_nothing (a b : Value) : equals nothing a b ≠ .text v := by
  cases a <;> cases b <;> exact Value.noConfusion

theorem asText_nothing {a : Value} (h : asText nothing textType a = .text v) : a = .text v := by
  cases a with
  | text s => exact h
  | _ => cases h

theorem infix_searched (arms : Expr .arms) :
    caseWord <:+: key u (.searched arms) ∧ endWord <:+: key u (.searched arms) := by
  rw [key_searched]
  exact ⟨⟨[], key u arms ++ endWord, by simp [caseWord, endWord]⟩,
    ⟨caseWord ++ key u arms, [], by simp [caseWord, endWord]⟩⟩

theorem infix_simple (e : Expr .value) (arms : Expr .arms) :
    caseWord <:+: key u (.simple e arms) ∧ endWord <:+: key u (.simple e arms) := by
  rw [key_simple]
  exact ⟨⟨[], key u e ++ key u arms ++ endWord, by simp [caseWord, endWord]⟩,
    ⟨caseWord ++ key u e ++ key u arms, [], by simp [caseWord, endWord]⟩⟩

/-- A text can only come from the status or from a literal, when nothing is defined. -/
theorem shape_of_text (hk : ¬ (caseWord <:+: key u e ∧ endWord <:+: key u e))
    (h : eval fold nothing ((sole s).value column) e = Value.text v) :
    IsColumn fold column e ∧ v = s ∨ core fold e = .literal v := by
  induction e using value_induction with
  | column name =>
      rw [eval_column, Row.value] at h
      split at h
      · next hn => exact .inl ⟨⟨name, rfl, hn⟩, (Value.text.inj h).symm⟩
      · cases h
  | literal value => exact .inr (congrArg Expr.literal (Value.text.inj h))
  | number digits hd => cases h
  | constant word hw =>
      rw [eval_constant] at h
      split_ifs at h
      all_goals cases h
  | call name args => cases h
  | before word e =>
      rw [eval_before] at h
      split at h
      · exact absurd h (ofTruth_ne_text _)
      · cases h
  | between word l r =>
      rw [eval_between] at h
      split_ifs at h
      · exact absurd h (equals_nothing _ _)
      · exact absurd h (ofTruth_ne_text _)
      · exact absurd h (ofTruth_ne_text _)
      · cases h
  | after e word =>
      rw [eval_after] at h
      split_ifs at h
      all_goals cases h
  | cast e type ih =>
      rw [eval_cast] at h
      split at h
      · next ht =>
          have hcore : core fold (.cast e type) = core fold e := if_pos ht
          rw [key_cast, List.append_assoc] at hk
          rw [IsColumn, hcore]
          refine ih (fun ⟨hc, he⟩ => hk ⟨?_, ?_⟩) (asText_nothing h)
          · exact hc.trans (List.prefix_append _ _).isInfix
          · exact he.trans (List.prefix_append _ _).isInfix
      · cases h
  | searched arms => exact absurd (infix_searched arms) hk
  | simple e arms => exact absurd (infix_simple e arms) hk
  | paren e ih =>
      rw [key_paren] at hk
      exact ih hk h

theorem equals_nothing_true {a b : Value} (h : equals nothing a b = .bool true) : ∃ v, a = .text v ∧ b = .text v := by
  cases a with
  | text v =>
      cases b with
      | text w => exact ⟨v, rfl, congrArg Value.text (of_decide_eq_true (Value.bool.inj h)).symm⟩
      | _ => cases h
  | null => cases h
  | _ => cases b <;> cases h

/-- Two sides that are equal on the `ACTIVE` row alone are the status and the literal. -/
theorem compares_of_equals (hl : ¬ (caseWord <:+: key u l ∧ endWord <:+: key u l))
    (hr : ¬ (caseWord <:+: key u r ∧ endWord <:+: key u r))
    (h : ∀ s, equals nothing (eval fold nothing ((sole s).value column) l)
    (eval fold nothing ((sole s).value column) r) =
      .bool true ↔ s = active) : Compares fold column l r := by
  have hother {v : Text} (hvl : eval fold nothing ((sole []).value column) l = Value.text v)
      (hvr : eval fold nothing ((sole []).value column) r = Value.text v) : False := by
    have hs := (h []).1 (by rw [hvl, hvr, equals_text, decide_eq_true rfl])
    cases hs
  obtain ⟨v, hvl, hvr⟩ := equals_nothing_true ((h active).2 rfl)
  rcases shape_of_text hl hvl with ⟨hcl, rfl⟩ | hcl
  · rcases shape_of_text hr hvr with ⟨hcr, -⟩ | hcr
    · exact (hother hcl.value hcr.value).elim
    · exact .inl ⟨hcl, hcr⟩
  · rcases shape_of_text hr hvr with ⟨hcr, rfl⟩ | hcr
    · exact .inr ⟨hcl, hcr⟩
    · exact (hother (eval_literal hcl) (eval_literal hcr)).elim

def reservedWords : List Text :=
  [caseWord, ['A', 'N', 'D'], ['O', 'R'], ['N', 'O', 'T'], ['N', 'U', 'L', 'L'], ['T', 'R', 'U', 'E']]

def Free (k : Text) : Prop := ∀ w ∈ reservedWords, ¬ w <:+: k

theorem wordKey_equalSign : wordKey u equalSign = ['='] := by
  rw [wordKey, equalSign, Word.tokens, List.flatMap_cons, compact_upper u rfl]
  rfl

theorem wordKey_phrase {words : List Text} (h : words.all (·.all fun c => decide (c.toNat < 128)) = true) :
    wordKey u (.phrase words) = words.flatMap plainKey := by
  rw [wordKey, Word.tokens, List.flatMap_map]
  apply List.flatMap_congr
  intro w hw
  exact compact_upper u (List.all_eq_true.1 h w hw)

/-- Nothing but a comparison can be true, when nothing is defined. -/
theorem comparison_of_true (hk : Free (key u e)) (h : eval fold nothing (row.value column) e = Value.bool true)
    (hrow : ∀ name, row.other name = .null) :
    ∃ l r, unwrap e = .between equalSign l r ∧ key u e = key u l ++ ['='] ++ key u r := by
  induction e using value_induction with
  | column name =>
      rw [eval_column, Row.value] at h
      split at h
      · cases h
      · rw [hrow] at h
        cases h
  | literal value => cases h
  | number digits hd => cases h
  | constant word hw =>
      rw [eval_constant] at h
      split_ifs at h with hn ht
      · subst ht
        refine absurd ?_ (hk ['T', 'R', 'U', 'E'] (by simp [reservedWords]))
        rw [key, tokens_constant, List.flatMap_cons, compact_upper u rfl]
        exact (List.prefix_append _ _).isInfix
      all_goals cases h
  | call name args => cases h
  | before word e =>
      rw [eval_before] at h
      split at h
      · next hw =>
          refine absurd ?_ (hk ['N', 'O', 'T'] (by simp [reservedWords]))
          rw [key_before, hw, negation, wordKey_phrase rfl]
          exact (List.prefix_append _ _).isInfix
      · cases h
  | between word l r =>
      rw [eval_between] at h
      split_ifs at h with he ha ho
      · exact ⟨l, r, by rw [he]; rfl, by rw [key_between, he, wordKey_equalSign]⟩
      · refine absurd ?_ (hk ['A', 'N', 'D'] (by simp [reservedWords]))
        rw [key_between, ha, conjunction, wordKey_phrase rfl]
        exact List.infix_append _ _ _
      · refine absurd ?_ (hk ['O', 'R'] (by simp [reservedWords]))
        rw [key_between, ho, disjunction, wordKey_phrase rfl]
        exact List.infix_append _ _ _
      · cases h
  | after e word =>
      rw [eval_after] at h
      have hnull {k : Text} : ['N', 'U', 'L', 'L'] <:+: k → k = key u (.after e word) → False := by
        rintro hn rfl
        exact hk _ (by simp [reservedWords]) hn
      split_ifs at h with hn hv
      · refine (hnull (k := key u e ++ ['I', 'S'] ++ ['N', 'U', 'L', 'L'] ++ []) (List.infix_append _ _ _) ?_).elim
        rw [key_after, hn, nullTest, wordKey_phrase rfl, List.append_nil, List.append_assoc]
        rfl
      · refine (hnull (k := key u e ++ ['I', 'S', 'N', 'O', 'T'] ++ ['N', 'U', 'L', 'L'] ++ [])
          (List.infix_append _ _ _) ?_).elim
        rw [key_after, hv, valueTest, wordKey_phrase rfl, List.append_nil, List.append_assoc]
        rfl
      · cases h
  | cast e type ih =>
      rw [eval_cast] at h
      split at h
      · generalize eval fold nothing (row.value column) e = w at h
        cases w <;> cases h
      · cases h
  | searched arms => exact absurd (infix_searched arms).1 (hk _ (by simp [reservedWords]))
  | simple e arms => exact absurd (infix_simple e arms).1 (hk _ (by simp [reservedWords]))
  | paren e ih =>
      rw [key_paren] at hk ⊢
      exact ih hk h

/-- An expression that is true on the `ACTIVE` rows alone compares the status with the literal. -/
theorem comparesActive_of_true (hk : Free (key u e))
    (h : ∀ s, eval fold nothing ((sole s).value column) e = Value.bool true ↔ s = active) :
    ComparesActive fold column e := by
  obtain ⟨l, r, he, hkey⟩ := comparison_of_true hk ((h active).2 rfl) fun _ => rfl
  have hcase := hk caseWord (by simp [reservedWords])
  rw [hkey] at hcase
  refine ⟨l, r, he, compares_of_equals (u := u) (fun hl => hcase ?_) (fun hr => hcase ?_) fun s => ?_⟩
  · exact hl.1.trans ((List.prefix_append _ _).isInfix.trans (List.prefix_append _ _).isInfix)
  · exact hr.1.trans (List.suffix_append _ _).isInfix
  · rw [← h s, ← eval_unwrap e, he, eval_equalSign]

end Comparisons

section Postgres

variable {u : Unicode}

/-- The predicate compares the status column itself with the literal `ACTIVE` itself. -/
def PlainPredicate (e : Expr .value) : Prop := ComparesActive Char.toLower activeIndexColumn.toList e

def predicateKeys : List Text :=
  ["STATUS='ACTIVE'".toList, "STATUS::TEXT='ACTIVE'::TEXT".toList]

theorem supportedActiveIndexPredicates_eq : supportedActiveIndexPredicates u = predicateKeys := by
  have hone : compactDefinition u activeIndexPredicate.toList true = "STATUS='ACTIVE'".toList :=
    (compact_upper u rfl).trans rfl
  have htwo : compactDefinition u "(status)::text = 'ACTIVE'::text".toList true =
      "STATUS::TEXT='ACTIVE'::TEXT".toList :=
    (compact_upper u rfl).trans rfl
  rw [supportedActiveIndexPredicates, List.map_cons, List.map_cons, List.map_nil, hone, htwo]
  rfl

theorem free_of_key : ∀ k ∈ predicateKeys, Free k := by
  unfold Free
  decide

theorem of_ite_cons {p : Prop} [Decidable p] {x : String} (h : (if p then [x] else []) = []) : ¬ p := by
  intro hp
  rw [if_pos hp] at h
  cases h

/-- What it takes for no problem to be reported. -/
theorem postgresProblems_eq_nil {present : List ObjectName} {index : PostgresIndex}
    (hp : present.contains .activeIndex = true) (h : postgresProblems u present (some index) = []) :
    index.unique = true ∧ index.valid = true ∧ index.ready = true ∧ index.tableName = Model.historyTable ∧
      index.columns = 1 ∧ index.indexed = some activeIndexColumn ∧
      compactDefinition u (index.predicate.getD []) true ∈ predicateKeys := by
  rw [postgresProblems, if_pos hp] at h
  simp only [List.append_eq_nil_iff] at h
  obtain ⟨⟨⟨⟨ht, hu⟩, hv⟩, hc⟩, hk⟩ := h
  have ht' := not_ne_iff.1 (of_ite_cons ht)
  have hu' := of_ite_cons hu
  have hv' := of_ite_cons hv
  have hc' := of_ite_cons hc
  rw [Bool.not_eq_true', Bool.not_eq_false] at hu'
  rw [Bool.or_eq_true, not_or, Bool.not_eq_true', Bool.not_eq_true', Bool.not_eq_false, Bool.not_eq_false] at hv'
  rw [not_or, not_ne_iff, not_ne_iff] at hc'
  refine ⟨hu', hv'.1, hv'.2, ht', hc'.1, ?_, ?_⟩
  · cases hi : index.indexed with
    | none =>
        rw [hi] at hc'
        exact absurd hc'.2 (by decide)
    | some name =>
        rw [hi] at hc'
        exact congrArg some hc'.2
  · split at hk
    · next hm =>
        rw [List.contains_iff_mem, supportedActiveIndexPredicates_eq] at hm
        exact hm
    · cases hk

theorem postgres_iff (u : Unicode) (index : PostgresIndex) (gaps : Nat → Blank) (e : Expr .value)
    (ht : index.predicate = some (lay gaps (tokens e))) :
    (index.Accepted u → ∀ C, (∀ row, postgresValue C e row = .bool true ↔ row.isActive) ∧
        ∀ rows, index.Stores C e rows → OneActive rows) ↔
      (index.Accepted u → PlainPredicate e) := by
  constructor
  · rintro h ⟨present, hp, hn⟩
    obtain ⟨-, -, -, -, -, -, hk⟩ := postgresProblems_eq_nil hp hn
    rw [ht, Option.getD_some, compact_lay] at hk
    exact comparesActive_of_true (free_of_key _ hk) fun s => (h ⟨present, hp, hn⟩ nothing).1 (sole s)
  · rintro h ⟨present, hp, hn⟩ C
    obtain ⟨hu, hv, hr, htable, hc, hi, -⟩ := postgresProblems_eq_nil hp hn
    have hrow (row : Row) : postgresValue C e row = .bool true ↔ row.isActive := by
      rw [postgresValue, (h ⟨present, hp, hn⟩).value, Row.isActive]
      exact ⟨fun hb => of_decide_eq_true (Value.bool.inj hb), fun ha => congrArg Value.bool (decide_eq_true ha)⟩
    refine ⟨hrow, fun rows hs => ?_⟩
    refine (hs hu hv hr htable).imp fun {a b} hab ⟨ha, hb⟩ =>
      hab ⟨(hrow a).2 ha, (hrow b).2 hb, hc, .text active, nofun, ?_⟩
    intro row hrow'
    have hact : row.status = active := by
      rcases List.mem_pair.1 hrow' with rfl | rfl
      · exact ha
      · exact hb
    rw [hi, Option.getD_some, Row.value, if_pos rfl, hact]

end Postgres

section Oracle

variable {u : Unicode} {e r s v : Expr .value} {arms : Expr .arms}

def IsNumber (e : Expr .value) : Prop := ∃ digits h, unwrap e = .number digits h

/-- A number where the status column itself is the literal `ACTIVE` itself. -/
def PlainExpression (e : Expr .value) : Prop :=
  (∃ c r, unwrap e = .searched (.arm c r .stop) ∧ ComparesActive Char.toUpper oracleColumn c ∧ IsNumber r) ∨
  ∃ s v r, unwrap e = .simple s (.arm v r .stop) ∧ Compares Char.toUpper oracleColumn s v ∧ IsNumber r

def whenWord : Text := ['W', 'H', 'E', 'N']

def thenWord : Text := ['T', 'H', 'E', 'N']

def searchedBody : Text := "WHENSTATUS='ACTIVE'THEN1".toList

def simpleBody : Text := "STATUSWHEN'ACTIVE'THEN1".toList

/-- A word that a text holds once splits it in one way. -/
theorem split_unique {K T A B : Text} {m : Nat} (h : ∀ n ≤ K.length, (K.drop n).take T.length = T → n = m)
    (he : A ++ T ++ B = K) : A = K.take m ∧ B = K.drop (m + T.length) := by
  subst he
  have hm : A.length = m := by
    apply h
    · simp only [List.length_append]
      omega
    · rw [List.append_assoc, List.drop_left, List.take_left]
  subst hm
  constructor
  · rw [List.append_assoc, List.take_left]
  · rw [← List.length_append, List.drop_left]

theorem expression_body (h : compactDefinition u (lay gaps (tokens e)) false ∈ supportedActiveIndexExpressions u) :
    ∃ body, (body = searchedBody ∨ body = simpleBody) ∧ key u e = caseWord ++ body ++ endWord := by
  have hdrop {t : Text} (h : compactDefinition u (lay gaps (tokens e)) false = compactDefinition u t false) :
      key u e = compactDefinition u t true := by
    rw [compact_drop u t, ← h, ← compact_drop, compact_lay]
    rfl
  rw [supportedActiveIndexExpressions, List.map_cons, List.map_cons, List.map_nil, List.mem_pair] at h
  rcases h with h | h
  · exact ⟨searchedBody, .inl rfl, (hdrop h).trans ((compact_upper u rfl).trans rfl)⟩
  · exact ⟨simpleBody, .inr rfl, (hdrop h).trans ((compact_upper u rfl).trans rfl)⟩

/-- What stays of the key when parentheses and casts to text go. -/
theorem key_core (e : Expr .value) : key u (core Char.toUpper e) <+: key u e := by
  induction e using value_induction with
  | paren e ih =>
      rw [key_paren]
      exact ih
  | cast e type ih =>
      rw [core]
      split
      · rw [key_cast, List.append_assoc]
        exact ih.trans (List.prefix_append _ _)
      · exact List.prefix_rfl
  | _ => exact List.prefix_rfl

theorem key_column {name : Name} (h : name.resolve Char.toUpper = oracleColumn) :
    key u (.column name) = oracleColumn := by
  rw [key, tokens_column, List.flatMap_singleton, Name.token]
  rw [Name.resolve] at h
  split
  · next hq =>
      rw [if_pos hq] at h
      rw [h]
      exact (compact_upper u rfl).trans rfl
  · next hq =>
      rw [if_neg hq] at h
      rw [compact_of_toUpper u h (forall_of_all rfl), plainKey, h]
      rfl

theorem key_literal (value : Text) : ∃ rest, key u (.literal value) = '\'' :: rest := by
  refine ⟨compactDefinition u (value.flatMap (doubled '\'') ++ ['\'']) true, ?_⟩
  have hq : compactDefinition u ['\''] true = ['\''] := compact_upper u rfl
  have hsplit : quotedText '\'' value = ['\''] ++ (value.flatMap (doubled '\'') ++ ['\'']) := rfl
  rw [key, tokens_literal, List.flatMap_singleton, hsplit, compact_append, hq]
  rfl

/-- The value of an expression on a row that holds a status and nothing else, when nothing is defined. -/
def bareValue (e : Expr .value) (status : Text) : Value := oracleValue nothing e (sole status)

theorem number_of_key (hk : key u e = ['1']) (h : bareValue e active ≠ .null) : IsNumber e := by
  have hnot {c : Char} (hc : c ∈ key u e) : c = '1' := by
    rw [hk] at hc
    exact List.mem_singleton.1 hc
  induction e using value_induction with
  | column name =>
      by_cases hn : name.resolve Char.toUpper = oracleColumn
      · rw [key_column hn] at hk
        cases hk
      · exact absurd (if_neg hn) h
  | literal value =>
      obtain ⟨rest, hr⟩ := key_literal (u := u) value
      rw [hr] at hk
      cases hk
  | number digits hd => exact ⟨digits, hd, rfl⟩
  | constant word hw =>
      rw [bareValue, oracleValue, eval_constant] at h
      rw [key, tokens_constant, List.flatMap_cons, List.flatMap_nil, List.append_nil] at hnot
      split_ifs at h with hn ht hf
      · exact absurd rfl h
      · subst ht
        rw [compact_upper u rfl] at hnot
        have hc : 'T' = '1' := hnot (by decide)
        cases hc
      · subst hf
        rw [compact_upper u rfl] at hnot
        have hc : 'F' = '1' := hnot (by decide)
        cases hc
      · exact absurd rfl h
  | call name args => exact absurd rfl h
  | before word e =>
      rw [bareValue, oracleValue, eval_before] at h
      split at h
      · next hw =>
          rw [key_before, hw, negation, wordKey_phrase rfl] at hnot
          have hc : 'N' = '1' := hnot (List.mem_append_left _ (by decide))
          cases hc
      · exact absurd rfl h
  | between word l r =>
      rw [bareValue, oracleValue, eval_between] at h
      rw [key_between] at hnot
      have hword {c : Char} (hc : c ∈ wordKey u word) : c = '1' :=
        hnot (List.mem_append_left _ (List.mem_append_right _ hc))
      split_ifs at h with he ha ho
      · rw [he, wordKey_equalSign] at hword
        have hc : '=' = '1' := hword (by decide)
        cases hc
      · rw [ha, conjunction, wordKey_phrase rfl] at hword
        have hc : 'A' = '1' := hword (by decide)
        cases hc
      · rw [ho, disjunction, wordKey_phrase rfl] at hword
        have hc : 'O' = '1' := hword (by decide)
        cases hc
      · exact absurd rfl h
  | after e word =>
      rw [bareValue, oracleValue, eval_after] at h
      rw [key_after] at hnot
      have hword {c : Char} (hc : c ∈ wordKey u word) : c = '1' := hnot (List.mem_append_right _ hc)
      split_ifs at h with hn hv
      · rw [hn, nullTest, wordKey_phrase rfl] at hword
        have hc : 'N' = '1' := hword (by decide)
        cases hc
      · rw [hv, valueTest, wordKey_phrase rfl] at hword
        have hc : 'N' = '1' := hword (by decide)
        cases hc
      · exact absurd rfl h
  | cast e type =>
      rw [key_cast] at hnot
      have hc : ':' = '1' := hnot (by simp)
      cases hc
  | searched arms =>
      rw [key_searched] at hnot
      have hc : 'C' = '1' := hnot (by simp)
      cases hc
  | simple e arms =>
      rw [key_simple] at hnot
      have hc : 'C' = '1' := hnot (by simp)
      cases hc
  | paren e ih =>
      rw [key_paren] at hk hnot
      exact ih hk h hnot

theorem equals_nothing_ne_null {a b : Value} (h : equals nothing a b ≠ .null) : ∃ v w, a = .text v ∧ b = .text w := by
  cases a with
  | text v =>
      cases b with
      | text w => exact ⟨v, w, rfl, rfl⟩
      | _ => exact absurd rfl h
  | null => exact absurd rfl h
  | _ => cases b <;> exact absurd rfl h

/-- A text that has been written without `CASE` is one on every row. -/
theorem text_everywhere {w : Text} (hk : ¬ (caseWord <:+: key u e ∧ endWord <:+: key u e))
    (h : bareValue e active = .text w)
    (status : Text) : ∃ v, bareValue e status = .text v := by
  rcases shape_of_text hk h with ⟨hc, -⟩ | hc
  · exact ⟨_, hc.value⟩
  · exact ⟨_, eval_literal hc⟩

/-- Beside the `CASE` forms nothing has a value on the `ACTIVE` row alone. -/
theorem case_of_key {body : Text} (hb : body = searchedBody ∨ body = simpleBody)
    (hk : key u e = caseWord ++ body ++ endWord) (ha : bareValue e active ≠ .null) (ho : bareValue e [] = .null) :
    (∃ arms, unwrap e = .searched arms) ∨ ∃ s arms, unwrap e = .simple s arms := by
  have hfree {w : Text} (hw : w <:+: key u e) (hno : ¬ w <:+: caseWord ++ searchedBody ++ endWord ∧
      ¬ w <:+: caseWord ++ simpleBody ++ endWord) : False := by
    rw [hk] at hw
    rcases hb with rfl | rfl
    · exact hno.1 hw
    · exact hno.2 hw
  induction e using value_induction with
  | column name =>
      by_cases hn : name.resolve Char.toUpper = oracleColumn
      · have hv : bareValue (.column name) [] = .text [] := if_pos hn
        rw [hv] at ho
        cases ho
      · exact absurd (if_neg hn) ha
  | literal value => cases ho
  | number digits hd => cases ho
  | constant word hw =>
      rw [bareValue, oracleValue, eval_constant] at ha ho
      split_ifs at ha ho with hn ht hf
      · exact absurd rfl ha
      · exact absurd rfl ha
  | call name args => exact absurd rfl ha
  | before word e =>
      rw [bareValue, oracleValue, eval_before] at ha
      split at ha
      · next hw =>
          rw [key_before, hw, negation, wordKey_phrase rfl] at hfree
          exact (hfree (w := ['N', 'O', 'T']) (List.prefix_append _ _).isInfix (by decide)).elim
      · exact absurd rfl ha
  | between word l r =>
      rw [bareValue, oracleValue, eval_between] at ha ho
      rw [key_between] at hfree hk
      have hword {w : Text} (hw : wordKey u word = w) (hno : ¬ w <:+: caseWord ++ searchedBody ++ endWord ∧
          ¬ w <:+: caseWord ++ simpleBody ++ endWord) : False := by
        subst hw
        exact hfree (List.infix_append _ _ _) hno
      split_ifs at ha ho with he ha' ho'
      · obtain ⟨v, w, hv, hw⟩ := equals_nothing_ne_null ha
        rw [he, wordKey_equalSign] at hk
        rcases hb with rfl | rfl
        · obtain ⟨hl, hr⟩ := split_unique (m := 14) (by decide) hk
          obtain ⟨v', hv'⟩ := text_everywhere (u := u) (e := l) (by rw [hl]; decide) hv []
          obtain ⟨w', hw'⟩ := text_everywhere (u := u) (e := r) (by rw [hr]; decide) hw []
          rw [bareValue, oracleValue] at hv' hw'
          rw [hv', hw', equals_text] at ho
          cases ho
        · have hm : '=' ∈ caseWord ++ simpleBody ++ endWord := by
            rw [← hk]
            exact List.mem_append_left _ (List.mem_append_right _ (List.mem_singleton.2 rfl))
          exact absurd hm (by decide)
      · exact (hword (by rw [ha', conjunction, wordKey_phrase rfl]) (by decide)).elim
      · exact (hword (by rw [ho', disjunction, wordKey_phrase rfl]) (by decide)).elim
      · exact absurd rfl ha
  | after e word =>
      rw [bareValue, oracleValue, eval_after] at ha ho
      split_ifs at ha ho
      exact absurd rfl ha
  | cast e type =>
      rw [key_cast] at hfree
      exact (hfree (w := [':', ':']) (List.infix_append _ _ _) (by decide)).elim
  | searched arms => exact .inl ⟨arms, rfl⟩
  | simple s arms => exact .inr ⟨s, arms, rfl⟩
  | paren e ih =>
      rw [key_paren] at hk hfree
      exact ih hk ha ho hfree

def statusTest : Text := "STATUS='ACTIVE'".toList

def literalTest : Text := "'ACTIVE'".toList

/-- What follows a test that says `THEN` nowhere is one result and no further arm. -/
theorem arm_of_key {c r : Expr .value} {rest : Expr .arms} (test : Text)
    (hu : ∀ n ≤ (test ++ thenWord ++ ['1']).length,
      ((test ++ thenWord ++ ['1']).drop n).take thenWord.length = thenWord → n = test.length)
    (h : key u c ++ thenWord ++ (key u r ++ key u rest) = test ++ thenWord ++ ['1']) :
    key u c = test ∧ key u r = ['1'] ∧ rest = .stop := by
  obtain ⟨hc, hr⟩ := split_unique hu h
  rw [List.append_assoc, List.take_left] at hc
  rw [← List.length_append, List.drop_left] at hr
  refine ⟨hc, ?_⟩
  cases rest with
  | stop => exact ⟨(List.append_nil _).symm.trans hr, rfl⟩
  | otherwise e =>
      rw [key_otherwise] at hr
      have hlen := congrArg List.length hr
      simp only [List.length_append, List.length_cons, List.length_nil] at hlen
      omega
  | arm c' r' rest =>
      rw [key_arm] at hr
      have hlen := congrArg List.length hr
      simp only [List.length_append, List.length_cons, List.length_nil] at hlen
      omega

theorem searched_arms {body : Text} (hb : body = searchedBody ∨ body = simpleBody) (hk : key u arms = body) :
    ∃ c r, arms = .arm c r .stop ∧ key u c = statusTest ∧ key u r = ['1'] := by
  have hhead : body.take 4 = whenWord ∨ body.take 4 = ['S', 'T', 'A', 'T'] := by
    rcases hb with rfl | rfl
    · exact .inl rfl
    · exact .inr rfl
  cases arms with
  | stop =>
      rw [← hk] at hhead
      rcases hhead with hh | hh <;> cases hh
  | otherwise e =>
      rw [← hk, key_otherwise] at hhead
      rcases hhead with hh | hh <;> cases hh
  | arm c r rest =>
      rw [key_arm] at hk
      rcases hb with rfl | rfl
      · have hrest : whenWord ++ (key u c ++ thenWord ++ (key u r ++ key u rest)) =
            whenWord ++ (statusTest ++ thenWord ++ ['1']) := by
          rw [← List.append_assoc, ← List.append_assoc, ← List.append_assoc]
          exact hk
        obtain ⟨hc, hr, rfl⟩ := arm_of_key statusTest (by decide) (List.append_cancel_left hrest)
        exact ⟨c, r, rfl, hc, hr⟩
      · cases hk

theorem simple_arms {body : Text} (hb : body = searchedBody ∨ body = simpleBody) (hk : key u s ++ key u arms = body)
    (hne : arms ≠ .stop) :
    ∃ v r, arms = .arm v r .stop ∧ key u r = ['1'] ∧
    (key u s = [] ∨ key u s = oracleColumn ∧ key u v = literalTest) := by
  cases arms with
  | stop => exact absurd rfl hne
  | otherwise e =>
      rw [key_otherwise] at hk
      have hw : ['E', 'L', 'S', 'E'] <:+: body := ⟨key u s, key u e, by rw [← hk, List.append_assoc]⟩
      rcases hb with rfl | rfl
      · exact absurd hw (by decide)
      · exact absurd hw (by decide)
  | arm v r rest =>
      rw [key_arm] at hk
      have hsplit : key u s ++ whenWord ++ (key u v ++ thenWord ++ (key u r ++ key u rest)) = body := by
        rw [← hk]
        simp only [List.append_assoc, whenWord, thenWord]
      rcases hb with rfl | rfl
      · obtain ⟨hs, hrest⟩ := split_unique (m := 0) (by decide) hsplit
        obtain ⟨-, hr, rfl⟩ := arm_of_key statusTest (by decide) hrest
        exact ⟨v, r, rfl, hr, .inl hs⟩
      · obtain ⟨hs, hrest⟩ := split_unique (m := 6) (by decide) hsplit
        obtain ⟨hv, hr, rfl⟩ := arm_of_key literalTest (by decide) hrest
        exact ⟨v, r, rfl, hr, .inr ⟨hs, hv⟩⟩

theorem IsNumber.value (h : IsNumber e) : ∃ digits, ∀ C row, oracleValue C e row = .number digits := by
  obtain ⟨digits, hd, he⟩ := h
  refine ⟨digits, fun C row => ?_⟩
  rw [oracleValue, ← eval_unwrap, he]
  rfl

theorem searched_value {c : Expr .value} {C : Catalog} (row : Row) (h : unwrap e = .searched (.arm c r .stop)) :
    oracleValue C e row = if oracleValue C c row = .bool true then oracleValue C r row else .null := by
  rw [oracleValue, ← eval_unwrap, h, eval_searched]
  rfl

theorem simple_value {C : Catalog} (row : Row) (h : unwrap e = .simple s (.arm v r .stop)) :
    oracleValue C e row =
      if equals C (oracleValue C s row) (oracleValue C v row) = .bool true then oracleValue C r row else .null := by
  rw [oracleValue, ← eval_unwrap, h, eval_simple]
  rfl

/-- Only the `ACTIVE` rows have a key, and all the same one. -/
def ConstantKey (C : Catalog) (e : Expr .value) : Prop :=
  ∃ k ≠ Value.null, ∀ row : Row, (row.isActive → oracleValue C e row = k) ∧
  (¬ row.isActive → oracleValue C e row = .null)

theorem PlainExpression.constant {C : Catalog} (h : PlainExpression e) : ConstantKey C e := by
  rcases h with ⟨c, r, he, hc, hr⟩ | ⟨s, v, r, he, hsv, hr⟩
  · obtain ⟨digits, hd⟩ := hr.value
    refine ⟨.number digits, nofun, fun row => ?_⟩
    rw [searched_value row he, hd, oracleValue, hc.value, Row.isActive]
    exact ⟨fun ha => if_pos (congrArg Value.bool (decide_eq_true ha)), fun hn => if_neg fun hb =>
      hn (of_decide_eq_true (Value.bool.inj hb))⟩
  · obtain ⟨digits, hd⟩ := hr.value
    refine ⟨.number digits, nofun, fun row => ?_⟩
    rw [simple_value row he, hd, oracleValue, oracleValue, hsv.value, Row.isActive]
    exact ⟨fun ha => if_pos (congrArg Value.bool (decide_eq_true ha)), fun hn => if_neg fun hb =>
      hn (of_decide_eq_true (Value.bool.inj hb))⟩

theorem key_unwrap (e : Expr .value) : key u (unwrap e) = key u e := by
  induction e using value_induction with
  | paren e ih =>
      rw [key_paren]
      exact ih
  | _ => rfl

/-- Where the one arm is taken on the `ACTIVE` row, and what it then gives. -/
theorem arm_taken {p : Text → Prop} [DecidablePred p] (h : ConstantKey nothing e)
    (hv : ∀ status, bareValue e status = if p status then bareValue r status else .null) (hr : key u r = ['1']) :
    IsNumber r ∧ ∀ status, p status ↔ status = active := by
  obtain ⟨k, hne, hall⟩ := h
  have ha : bareValue e active ≠ .null := by
    rw [bareValue, (hall (sole active)).1 rfl]
    exact hne
  have hp : p active := by
    by_contra hn
    rw [hv, if_neg hn] at ha
    exact ha rfl
  have hnum : IsNumber r := by
    rw [hv, if_pos hp] at ha
    exact number_of_key hr ha
  obtain ⟨digits, hd⟩ := hnum.value
  refine ⟨hnum, fun status => ⟨fun hs => ?_, fun hs => hs ▸ hp⟩⟩
  by_contra hn
  have ho : bareValue e status = .null := (hall (sole status)).2 hn
  rw [hv, if_pos hs, bareValue, hd] at ho
  cases ho

/-- The status and literals leave something in the key. -/
theorem text_of_key_nil (hk : key u e = []) (w : Text) : bareValue e active ≠ .text w := by
  intro h
  have hpre : key u (core Char.toUpper e) <+: [] := hk ▸ key_core e
  have hno : ¬ (caseWord <:+: key u e ∧ endWord <:+: key u e) := by
    rw [hk]
    decide
  rcases shape_of_text hno h with ⟨⟨name, hc, hn⟩, -⟩ | hc
  · rw [hc, key_column hn] at hpre
    exact absurd hpre (by decide)
  · obtain ⟨rest, hrest⟩ := key_literal (u := u) w
    rw [hc, hrest, List.prefix_nil] at hpre
    cases hpre

theorem plain_of_constant {body : Text} (hb : body = searchedBody ∨ body = simpleBody)
    (hk : key u e = caseWord ++ body ++ endWord) (h : ConstantKey nothing e) : PlainExpression e := by
  have hcase : (∃ arms, unwrap e = .searched arms) ∨ ∃ s arms, unwrap e = .simple s arms := by
    obtain ⟨k, hne, hall⟩ := h
    refine case_of_key hb hk ?_ ((hall (sole [])).2 nofun)
    rw [bareValue, (hall (sole active)).1 rfl]
    exact hne
  have hkey := (key_unwrap (u := u) e).trans hk
  rcases hcase with ⟨arms, he⟩ | ⟨s, arms, he⟩
  · rw [he, key_searched] at hkey
    obtain ⟨c, r, rfl, hc, hr⟩ := searched_arms hb (List.append_cancel_left (List.append_cancel_right hkey))
    obtain ⟨hnum, hiff⟩ := arm_taken h (fun status => searched_value (sole status) he) hr
    refine .inl ⟨c, r, he, comparesActive_of_true (u := u) ?_ hiff, hnum⟩
    rw [hc]
    exact free_of_key _ List.mem_cons_self
  · rw [he, key_simple] at hkey
    have hbody : caseWord ++ (key u s ++ key u arms) = caseWord ++ body := by
      rw [← List.append_assoc]
      exact List.append_cancel_right hkey
    have hne : arms ≠ .stop := by
      rintro rfl
      obtain ⟨k, hne, hall⟩ := h
      have hv : bareValue e active = .null := by
        rw [bareValue, oracleValue, ← eval_unwrap, he]
        rfl
      rw [bareValue, (hall (sole active)).1 rfl] at hv
      exact hne hv
    obtain ⟨v, r, rfl, hr, hs⟩ := simple_arms hb (List.append_cancel_left hbody) hne
    obtain ⟨hnum, hiff⟩ := arm_taken h (fun status => simple_value (sole status) he) hr
    refine .inr ⟨s, v, r, he, ?_, hnum⟩
    rcases hs with hs | ⟨hs, hv⟩
    · obtain ⟨w, hw, -⟩ := equals_nothing_true ((hiff active).2 rfl)
      exact absurd hw (text_of_key_nil hs w)
    · refine compares_of_equals (u := u) ?_ ?_ hiff
      · rw [hs]
        decide
      · rw [hv]
        decide

theorem oracleProblems_eq_nil {present : List ObjectName} {index : OracleIndex}
    (hp : present.contains .activeIndex = true) (h : oracleProblems u present (some index) = []) :
    index.uniqueness = "UNIQUE" ∧ index.status = "VALID" ∧ index.funcidxStatus.all (· = "ENABLED") = true ∧
      index.tableName = Model.historyTable.toUpper ∧
      compactDefinition u (rendered index.expressions) false ∈ supportedActiveIndexExpressions u := by
  rw [oracleProblems, if_pos hp] at h
  simp only [List.append_eq_nil_iff] at h
  obtain ⟨⟨⟨⟨⟨ht, hu⟩, hs⟩, hf⟩, -⟩, hk⟩ := h
  refine ⟨not_ne_iff.1 (of_ite_cons hu), not_ne_iff.1 (of_ite_cons hs), ?_, not_ne_iff.1 (of_ite_cons ht), ?_⟩
  · have hf' := of_ite_cons hf
    cases hi : index.funcidxStatus with
    | none => rfl
    | some name =>
        rw [hi, Option.any_some, decide_eq_true_iff, not_ne_iff] at hf'
        exact decide_eq_true hf'
  · split at hk
    · next hm => exact List.contains_iff_mem.1 hm
    · cases hk

theorem oracle_iff (u : Unicode) (index : OracleIndex) (gaps : Nat → Blank) (e : Expr .value)
    (ht : index.expressions = [lay gaps (tokens e)]) :
    (index.Accepted u → ∀ C, ConstantKey C e ∧ ∀ rows, index.Stores C e rows → OneActive rows) ↔
      (index.Accepted u → PlainExpression e) := by
  have hone : rendered index.expressions = lay gaps (tokens e) := by
    rw [ht]
    exact List.intercalate_singleton
  constructor
  · rintro h ⟨present, hp, hn⟩
    obtain ⟨-, -, -, -, hk⟩ := oracleProblems_eq_nil hp hn
    rw [hone] at hk
    obtain ⟨body, hb, hkey⟩ := expression_body hk
    exact plain_of_constant hb hkey (h ⟨present, hp, hn⟩ nothing).1
  · rintro h ⟨present, hp, hn⟩ C
    obtain ⟨hu, hs, hf, htable, -⟩ := oracleProblems_eq_nil hp hn
    have hconst : ConstantKey C e := (h ⟨present, hp, hn⟩).constant
    refine ⟨hconst, fun rows hrows => ?_⟩
    obtain ⟨k, hne, hall⟩ := hconst
    exact (hrows hu hs hf htable).imp fun {a b} hab ⟨ha, hb⟩ => hab ⟨k, hne, (hall a).1 ha, (hall b).1 hb⟩

end Oracle

section Result

/-- However the predicate or the expression is written down, an accepted index holds to one
`ACTIVE` row exactly when it compares the status column itself with the literal `ACTIVE`
itself. -/
theorem one_active_iff (u : Unicode) (gaps : Nat → Blank) (e : Expr .value) :
    (∀ index : PostgresIndex, index.predicate = some (lay gaps (tokens e)) →
      ((index.Accepted u → ∀ C, (∀ row, postgresValue C e row = .bool true ↔ row.isActive) ∧
          ∀ rows, index.Stores C e rows → OneActive rows) ↔
        (index.Accepted u → PlainPredicate e))) ∧
    ∀ index : OracleIndex, index.expressions = [lay gaps (tokens e)] →
      ((index.Accepted u → ∀ C, ConstantKey C e ∧ ∀ rows, index.Stores C e rows → OneActive rows) ↔
        (index.Accepted u → PlainExpression e)) :=
  ⟨fun index => postgres_iff u index gaps e, fun index => oracle_iff u index gaps e⟩

def bareName (spelled : Text) (h : spelled ≠ [] ∧ spelled.all isNameChar = true) : Name := ⟨spelled, false, .inr h⟩

def spaces (places : List Nat) (n : Nat) : Blank := if places.contains n then ⟨[' '], rfl⟩ else ⟨[], rfl⟩

def postgresIndex (predicate : String) : PostgresIndex :=
  ⟨true, true, true, "", Model.historyTable, 1, some predicate.toList, some activeIndexColumn⟩

def oracleIndex (expression : String) : OracleIndex :=
  ⟨"UNIQUE", "VALID", some "ENABLED", Model.historyTable.toUpper, [expression.toList], 1⟩

/-- `((status)::text = '…'::text)`, as PostgreSQL renders the comparison. -/
def castPredicate (value : Text) : Expr .value :=
  .paren (.between equalSign (.cast (.paren (.column (bareName activeIndexColumn.toList (by decide))))
    (bareName textType (by decide))) (.cast (.literal value) (bareName textType (by decide))))

def simpleCase (value : Text) : Expr .value :=
  .simple (.column ⟨oracleColumn, true, .inl rfl⟩) (.arm (.literal value) (.number ['1'] (by decide)) .stop)

def lower : Text := ['a', 'c', 't', 'i', 'v', 'e']

theorem oracleIndex_accepted {expression : String}
    (h : (supportedActiveIndexExpressions .ascii).contains
      (compactDefinition .ascii (rendered [expression.toList]) false) = true) :
    (oracleIndex expression).Accepted .ascii := by
  refine ⟨[.activeIndex], rfl, ?_⟩
  have hp : [ObjectName.activeIndex].contains .activeIndex = true := rfl
  rw [oracleProblems, if_pos hp]
  simp [oracleIndex, List.contains_iff_mem.1 h]

theorem one_active_iff_supported :
    (postgresIndex "((status)::text = 'ACTIVE'::text)").Accepted .ascii ∧
    (oracleIndex "CASE \"STATUS\" WHEN 'ACTIVE' THEN 1 END").Accepted .ascii ∧
    ∀ C, (∀ row, postgresValue C (castPredicate active) row = .bool true ↔ row.isActive) ∧
      ConstantKey C (simpleCase active) := by
  have hp : (postgresIndex "((status)::text = 'ACTIVE'::text)").Accepted .ascii := ⟨[.activeIndex], rfl, by decide⟩
  have ho : (oracleIndex "CASE \"STATUS\" WHEN 'ACTIVE' THEN 1 END").Accepted .ascii :=
    oracleIndex_accepted (by decide)
  refine ⟨hp, ho, fun C => ⟨?_, ?_⟩⟩
  · refine (((one_active_iff .ascii (spaces [5, 6]) (castPredicate active)).1 _ (by decide)).2 (fun _ => ?_) hp C).1
    exact ⟨_, _, rfl, .inl ⟨⟨_, rfl, rfl⟩, rfl⟩⟩
  · refine (((one_active_iff .ascii (spaces [0, 1, 2, 3, 4, 5]) (simpleCase active)).2 _ (by decide)).2
      (fun _ => ?_) ho C).1
    exact .inr ⟨_, _, _, rfl, .inl ⟨⟨_, rfl, rfl⟩, rfl⟩, _, _, rfl⟩

/-- An index restricted to another literal is accepted, and two `ACTIVE` rows stand under it. -/
theorem lowercase_accepted :
    ((postgresIndex "((status)::text = 'active'::text)").Accepted .ascii ∧
      "((status)::text = 'active'::text)".toList = lay (spaces [5, 6]) (tokens (castPredicate lower)) ∧
      ∀ C, postgresValue C (castPredicate lower) (sole active) = .bool false ∧
        (postgresIndex "((status)::text = 'active'::text)").Stores C (castPredicate lower) [sole active, sole active]) ∧
    ((oracleIndex "CASE \"STATUS\" WHEN 'active' THEN 1 END").Accepted .ascii ∧
      "CASE \"STATUS\" WHEN 'active' THEN 1 END".toList = lay (spaces [0, 1, 2, 3, 4, 5]) (tokens (simpleCase lower)) ∧
      ∀ C, oracleValue C (simpleCase lower) (sole active) = .null ∧
        (oracleIndex "CASE \"STATUS\" WHEN 'active' THEN 1 END").Stores C (simpleCase lower)
        [sole active, sole active]) ∧
    ¬ OneActive [sole active, sole active] := by
  refine ⟨⟨⟨[.activeIndex], rfl, by decide⟩, by decide, fun C => ?_⟩,
    ⟨oracleIndex_accepted (by decide), by decide, fun C => ?_⟩, ?_⟩
  · have hv : postgresValue C (castPredicate lower) (sole active) = .bool false := rfl
    refine ⟨hv, fun _ _ _ _ => List.pairwise_pair.2 fun h => ?_⟩
    rw [hv] at h
    exact absurd h.1 (by decide)
  · have hv : oracleValue C (simpleCase lower) (sole active) = .null := rfl
    refine ⟨hv, fun _ _ _ _ => List.pairwise_pair.2 fun ⟨v, hne, h, _⟩ => hne ?_⟩
    rw [← h, hv]
  · intro h
    exact List.pairwise_pair.1 h ⟨rfl, rfl⟩

end Result

end Migr8.IndexDefinitions
