import Migr8.CommonTables
import Migr8.Lib.Marking

namespace Migr8.Modifying

open Model Driver Context Characters Lib.Scanning Lib.Marking SqlText Scanner Pieces Migr8.Normal Congruence
    Projection Prose
  Admission Dialects Readings CommonTables

section Reading

def frameWords : List String := "WITH" :: "AS" :: "NOT" :: "MATERIALIZED" :: cteMainVerbs

def frameMarks : List Text := [['('], [')'], [';'], ['/']]

variable (u : Unicode)

def Ordinary (x : Shape) : Prop :=
  (x.1 = .word → String.ofList (u.upper x.2) ∉ frameWords) ∧ (x.1 = .punct → x.2 ∉ frameMarks)

def Faithful (x : Shape) : Prop := x.1 = .word → String.ofList (u.upper x.2) ∈ frameWords → u.upper x.2 = folded x.2

/-- The scanner makes the same tokens, or others where none belongs to a frame. -/
def Near (xs ys : List SqlPiece) : Prop :=
  (sigShapes ys = sigShapes xs ∧ ∀ x ∈ sigShapes xs, Faithful u x) ∨
    (sigShapes xs ≠ [] ∧ sigShapes ys ≠ [] ∧ (∀ x ∈ sigShapes xs, Ordinary .ascii x) ∧ ∀ y ∈ sigShapes ys, Ordinary u y)

/-- The scanner has the frame of the statement as PostgreSQL has it. -/
def ReadNearly (s : Text) : Prop := ∃ ps qs, Postgres.lex s = some ps ∧ Divides u (Near u) ps qs

end Reading

section Statements

variable (u : Unicode) (s : Text) (q : WithStatement .ascii)

/-- By the tokens of PostgreSQL, the text is the statement. -/
def Spells : Prop := Spelled Postgres.tokenize s q.tokens

/-- PostgreSQL's adapter lets a restartable migration run the text outside a batch. -/
def Admits : Prop := ∃ st, normalize u s = .ok st ∧ admitStatement u .postgres st .restartable false = none

def withoutTerminator (toks : List Token) : Text :=
  match toks.getLast? with
  | some t => if t.isPunct ';' then cut s t else s
  | none => s

/-- No other rule stands in the way: no slash is alone on its line, no name is reserved. -/
structure Clear : Prop where
  nul : '\x00' ∉ s
  slash : ∀ toks, significantTokens u s = .ok toks →
    ∀ t ∈ toks, t.isPunct '/' = true → standaloneSlash u (withoutTerminator s toks) t = false
  names : ∀ toks, significantTokens u s = .ok toks → ∀ r ∈ reservedObjectNames, r.toUpper ∉ identifierWords u toks

/-- No body shows its verb: the list is in parentheses, or each of its bodies that writes
starts with a list of its own and nothing later on reads like a body that writes. -/
def Unseen : Prop := q.wraps = 1 ∨ ((∀ c ∈ q.ctes, ¬ Bare c) ∧ ¬ Lookalike .ascii q.main.rest)

/-- The ways to admit a statement that writes, and to refuse one that does not. -/
inductive Failing : Prop
  /-- more than one pair of parentheses around a statement that writes -/
  | wrapped (hm : q.Modifies) (hc : Clear u s) (hw : 2 ≤ q.wraps)
  /-- a name that is taken for a verb that writes nothing -/
  | hidden (hm : q.Modifies) (hc : Clear u s) (hw : q.wraps ≤ 1) {name : String} (hn : q.verbName = some name)
      (hd : name ∉ cteDmlVerbs) (hu : Unseen q)
  /-- a body that writes behind a list of its own, or in parentheses -/
  | body (hm : q.Modifies) (hc : Clear u s) (hw : q.wraps ≤ 1) (hn : q.verbName = none)
      (hmain : ¬ CommonTables.Modifies q.main) (hu : Unseen q)
  /-- a name that is taken for a verb that writes -/
  | accused (hm : ¬ q.Modifies) (hw : q.wraps ≤ 1) {name : String} (hn : q.verbName = some name)
      (hd : name ∈ cteDmlVerbs)
  /-- a statement that writes nothing and holds what reads like a body that writes -/
  | lookalike (hm : ¬ q.Modifies) (hw : q.wraps = 0) (hl : Lookalike .ascii q.main.rest)
  /-- a statement that writes nothing and breaks another rule -/
  | unclear (hm : ¬ q.Modifies) (hc : ¬ Clear u s)

end Statements

variable {u v w : Unicode} {s : Text} {q : WithStatement .ascii} {x : Shape} {xs ys : List Shape} {t : Token}
  {ts ts' toks : List Token} {ps qs rs : List SqlPiece} {st : Statement}

section Frames

def Agreeing (v w : Unicode) (x : Shape) : Prop :=
  x.1 = .word → ∀ f ∈ frameWords, String.ofList (v.upper x.2) = f ↔ String.ofList (w.upper x.2) = f

abbrev Framed (v w : Unicode) : List Shape → List Shape → Prop := Regrouped (Agreeing v w) (Ordinary v) (Ordinary w)

theorem Framed.swap (h : Framed v w xs ys) : Framed w v ys xs :=
  Regrouped.swap (fun _ hx hk f hf => (hx hk f hf).symm) h

theorem frameWord_plain {t : Text} {f : String} (hf : f ∈ frameWords) (h : String.ofList (folded t) = f) :
    Plainly t := by
  have hall : ∀ f ∈ frameWords, Plainly f.toList := by decide +kernel
  have hfolded : folded t = f.toList := by rw [← h, String.toList_ofList]
  exact plainly_of_folded (hfolded ▸ hall f hf)

theorem ascii_upper (t : Text) : Unicode.ascii.upper t = folded t := by
  induction t with
  | nil => rfl
  | cons c t ih => exact congrArg (c.toUpper :: ·) ih

theorem Faithful.agreeing (h : Faithful u x) : Agreeing .ascii u x := by
  intro hk f hf
  rw [ascii_upper]
  constructor
  · intro he
    rw [upper_of_plainly (frameWord_plain hf he), he]
  · rintro rfl
    rw [h hk hf]

/-- The frame words and marks are not ordinary. -/
theorem not_ordinary_word {f : String} (hk : x.1 = .word) (hf : f ∈ frameWords) (h : String.ofList (u.upper x.2) = f) :
    ¬ Ordinary u x := fun ho => ho.1 hk (h ▸ hf)

theorem not_ordinary_mark {c : Char} (hc : [c] ∈ frameMarks) : ¬ Ordinary u (.punct, [c]) := fun ho => ho.2 rfl hc

theorem framed_of_divides (h : Divides u (Near u) ps qs) : Framed .ascii u (sigShapes ps) (sigShapes qs) := by
  induction h with
  | nil => exact .nil
  | @group xs ys ps qs _ _ hn _ ih =>
      rw [sigShapes_append, sigShapes_append]
      refine Regrouped.append ?_ ih
      obtain ⟨hsame, hall⟩ | ⟨hxs, hys, hl, hr⟩ := hn
      · rw [hsame]
        exact regrouped_self fun x hx => (hall x hx).agreeing
      · have hblock := Regrouped.block hxs hys hl hr (.nil : Framed .ascii u [] [])
        rwa [List.append_nil, List.append_nil] at hblock

/-- The scanner's tokens have the frame of the statement. -/
theorem framed_of_spelled (h : Spells s q) (ha : ReadNearly u s) : ∃ qs, join qs = s ∧ Reads (next u) [] qs ∧
    Framed .ascii u (q.tokens.map shape) (sigShapes qs) := by
  obtain ⟨toks, htoks, hshape⟩ := h
  obtain ⟨ps, qs, hlex, hdivides⟩ := ha
  obtain ⟨hjoin, hreads⟩ := hdivides.reads
  rw [Postgres.tokenize, hlex, Option.map_some, Option.some.injEq] at htoks
  subst htoks
  change (marks ps).map shape = _ at hshape
  rw [marks_shape] at hshape
  refine ⟨qs, by rw [hjoin, lexFrom_join hlex, List.drop_zero], hreads, ?_⟩
  rw [← hshape]
  exact framed_of_divides hdivides

end Frames

section Verbs

theorem mainVerbs_frame : ∀ v ∈ cteMainVerbs, v ∈ frameWords := by decide

theorem mainVerb_ordinary {as : List Shape} (ha : ∀ a ∈ as, Ordinary u a) (depth : Int) :
    mainVerbFrom u depth (as.map unplaced ++ ts) = mainVerbFrom u depth ts := by
  induction as with
  | nil => rfl
  | cons a as ih =>
      obtain ⟨hword, hmark⟩ := ha a List.mem_cons_self
      rw [List.map_cons, List.cons_append, ← ih fun b hb => ha b (List.mem_cons_of_mem _ hb), mainVerbFrom]
      by_cases hk : (unplaced a).kind = .punct
      · have hno : (unplaced a).text ≠ ['('] ∧ (unplaced a).text ≠ [')'] := by
          have hm : a.2 ∉ frameMarks := hmark hk
          simp only [frameMarks, List.mem_cons, not_or] at hm
          exact ⟨hm.1, hm.2.1⟩
        rw [if_pos hk, if_neg hno.1, if_neg hno.2]
      · rw [if_neg hk, if_neg fun h => hword h.2.1 (mainVerbs_frame _ h.2.2)]

theorem mainVerb_framed (h : Framed v w xs ys) (depth : Int) :
    mainVerbFrom v depth (xs.map unplaced) = mainVerbFrom w depth (ys.map unplaced) := by
  induction h generalizing depth with
  | nil => rfl
  | @same x xs ys hx _ ih =>
      rw [List.map_cons, List.map_cons, mainVerbFrom, mainVerbFrom]
      by_cases hk : x.1 = .word
      · have hno : (unplaced x).kind ≠ .punct := by simp [unplaced, hk]
        rw [if_neg hno, if_neg hno, ih]
        by_cases hv : String.ofList (v.upper x.2) ∈ cteMainVerbs
        · have hsame : String.ofList (w.upper x.2) = String.ofList (v.upper x.2) :=
            (hx hk _ (mainVerbs_frame _ hv)).1 rfl
          have hupper : (unplaced x).upper w = (unplaced x).upper v := hsame
          rw [hupper]
        · have hw : String.ofList (w.upper x.2) ∉ cteMainVerbs := by
            intro hw
            rw [← (hx hk _ (mainVerbs_frame _ hw)).2 rfl] at hw
            exact hv hw
          rw [if_neg fun h => hv h.2.2, if_neg fun h => hw h.2.2]
      · have hno (u : Unicode) : ¬ (depth = 0 ∧ (unplaced x).kind = .word ∧ (unplaced x).upper u ∈ cteMainVerbs) :=
          fun h => hk h.2.1
        rw [if_neg (hno v), if_neg (hno w), ih, ih, ih]
  | block _ _ hl hr _ ih =>
      rw [List.map_append, List.map_append, mainVerb_ordinary hl, mainVerb_ordinary hr, ih]

theorem level_append : level (ts ++ ts') = level ts + level ts' := by
  induction ts with
  | nil => simp [level]
  | cons t ts ih => rw [List.cons_append, level, level, ih, Int.add_assoc]

theorem level_ordinary {as : List Shape} (ha : ∀ a ∈ as, Ordinary u a) : level (as.map unplaced) = 0 := by
  induction as with
  | nil => rfl
  | cons a as ih =>
      have hno (c : Char) (hc : [c] ∈ frameMarks) : (unplaced a).isPunct c = false := by
        rw [Bool.eq_false_iff]
        intro h
        obtain rfl : a = (.punct, [c]) := isPunct_iff.1 h
        exact not_ordinary_mark hc (ha _ List.mem_cons_self)
      rw [List.map_cons, level, hno _ (by decide), hno _ (by decide), ih fun b hb => ha b (List.mem_cons_of_mem _ hb)]
      rfl

theorem level_framed (h : Framed v w xs ys) : level (xs.map unplaced) = level (ys.map unplaced) := by
  induction h with
  | nil => rfl
  | same _ _ ih => rw [List.map_cons, List.map_cons, level, level, ih]
  | block _ _ hl hr _ ih =>
      rw [List.map_append, List.map_append, level_append, level_append, level_ordinary hl, level_ordinary hr, ih]

def bodyLeads : List (List String) := [["AS"], ["AS", "MATERIALIZED"], ["AS", "NOT", "MATERIALIZED"]]

theorem followsAs_iff : followsAs u ts.reverse = true ↔
    ∃ pre run, ts = pre ++ run ∧ (∀ t ∈ run, t.kind = .word) ∧ run.map (·.upper u) ∈ bodyLeads := by
  have hread (t : Token) (f : String) (hf : f ≠ "") :
      (if t.kind = .word then t.upper u else "") = f ↔ t.kind = .word ∧ t.upper u = f := by
    by_cases hk : t.kind = .word
    · simp [hk]
    · simp [hk, hf.symm]
  constructor
  · intro h
    obtain ⟨before, rfl⟩ : ∃ before, ts = before.reverse := ⟨ts.reverse, ts.reverse_reverse.symm⟩
    rw [List.reverse_reverse] at h
    simp only [followsAs, Bool.or_eq_true, decide_eq_true_eq] at h
    rcases before with _ | ⟨a, _ | ⟨b, _ | ⟨c, before⟩⟩⟩
    · simp at h
    · simp [hread] at h
      exact ⟨[], [a], rfl, by simp [h], by simp [h, bodyLeads]⟩
    · simp [hread] at h
      obtain h | ⟨hb, ha⟩ := h
      · exact ⟨[b], [a], rfl, by simp [h], by simp [h, bodyLeads]⟩
      · exact ⟨[], [b, a], rfl, by simp [hb, ha], by simp [hb, ha, bodyLeads]⟩
    · simp [hread] at h
      obtain (h | ⟨ha, hb⟩) | ⟨ha, hb, hc⟩ := h
      · exact ⟨before.reverse ++ [c, b], [a], by simp, by simp [h], by simp [h, bodyLeads]⟩
      · exact ⟨before.reverse ++ [c], [b, a], by simp, by simp [hb, ha], by simp [hb, ha, bodyLeads]⟩
      · exact ⟨before.reverse, [c, b, a], by simp, by simp [hc, hb, ha], by simp [hc, hb, ha, bodyLeads]⟩
  · rintro ⟨pre, run, rfl, hwords, hrun⟩
    simp only [bodyLeads, List.mem_cons, List.not_mem_nil, or_false] at hrun
    obtain h | h | h := hrun
    · obtain ⟨a, rfl, ha⟩ := List.map_eq_singleton_iff.1 h
      simp [followsAs, hwords a, ha]
    · obtain ⟨a, run, rfl, ha, h⟩ := List.map_eq_cons_iff.1 h
      obtain ⟨b, rfl, hb⟩ := List.map_eq_singleton_iff.1 h
      simp [followsAs, hwords a, hwords b, ha, hb]
    · obtain ⟨a, run, rfl, ha, h⟩ := List.map_eq_cons_iff.1 h
      obtain ⟨b, run, rfl, hb, h⟩ := List.map_eq_cons_iff.1 h
      obtain ⟨c, rfl, hc⟩ := List.map_eq_singleton_iff.1 h
      simp [followsAs, hwords a, hwords b, hwords c, ha, hb, hc]

theorem followsAs_framed (h : Framed v w xs ys) (hf : followsAs v (xs.map unplaced).reverse = true) :
    followsAs w (ys.map unplaced).reverse = true := by
  obtain ⟨pre, run, hsplit, hwords, hrun⟩ := followsAs_iff.1 hf
  obtain ⟨pre, run, rfl, rfl, rfl⟩ := List.map_eq_append_iff.1 hsplit
  have hframe : ∀ lead ∈ bodyLeads, ∀ f ∈ lead, f ∈ frameWords := by decide
  have hmem (x : Shape) (hx : x ∈ run) : x.1 = .word ∧ String.ofList (v.upper x.2) ∈ frameWords := by
    have ht : unplaced x ∈ run.map unplaced := List.mem_map_of_mem hx
    exact ⟨hwords _ ht, hframe _ hrun _ (List.mem_map_of_mem ht)⟩
  obtain ⟨pre', rfl, hkept, -⟩ := h.suffix fun x hx => not_ordinary_word (hmem x hx).1 (hmem x hx).2 rfl
  refine followsAs_iff.2 ⟨pre'.map unplaced, run.map unplaced, List.map_append, hwords, ?_⟩
  have hsame : (run.map unplaced).map (·.upper w) = (run.map unplaced).map (·.upper v) := by
    rw [List.map_map, List.map_map]
    exact List.map_congr_left fun x hx => (hkept x hx (hmem x hx).1 _ (hmem x hx).2).1 rfl
  rwa [hsame]

theorem opens_framed (h : Framed v w xs ys) (ho : Opens v [] 0 (xs.map unplaced)) : Opens w [] 0 (ys.map unplaced) := by
  obtain ⟨before, opening, t, after, hsplit, hlevel, hopen, hfollows, hword, hverb⟩ := ho
  obtain ⟨before, rest, rfl, rfl, hopening⟩ := List.map_eq_append_iff.1 hsplit
  obtain ⟨o, rest, rfl, rfl, hbody⟩ := List.map_eq_cons_iff.1 hopening
  obtain ⟨x, after, rfl, rfl, rfl⟩ := List.map_eq_cons_iff.1 hbody
  obtain rfl : o = (.punct, ['(']) := isPunct_iff.1 hopen
  have hdml : ∀ f ∈ dmlVerbs, f ∈ frameWords := by decide
  obtain ⟨-, before', rest', rfl, hbefore, hrest'⟩ := h.split (not_ordinary_mark (by decide))
  obtain ⟨hkept, after', rfl, -⟩ := hrest'.cons_left (not_ordinary_word hword (hdml _ hverb) rfl)
  rw [List.append_nil] at hfollows
  refine ⟨before'.map unplaced, unplaced (.punct, ['(']),
    unplaced x, after'.map unplaced, by simp, ?_, rfl, ?_, hword, ?_⟩
  · rw [← level_framed hbefore, hlevel]
  · rw [List.append_nil]
    exact followsAs_framed hbefore hfollows
  · have hsame : String.ofList (w.upper x.2) = String.ofList (v.upper x.2) := (hkept hword _ (hdml _ hverb)).1 rfl
    rwa [Token.upper, unplaced, hsame]

theorem bodyVerbs_framed (h : Framed v w xs ys) :
    cteBodyVerbs v (xs.map unplaced) ≠ [] ↔ cteBodyVerbs w (ys.map unplaced) ≠ [] := by
  rw [cteBodyVerbs, cteBodyVerbs, bodyVerbs_iff, bodyVerbs_iff]
  exact ⟨opens_framed h, opens_framed h.swap⟩

end Verbs

section Kept

theorem shape_isPunct {a b : Token} (h : shape a = shape b) (c : Char) : a.isPunct c = b.isPunct c :=
  (alike_of_shape h).isPunct

structure Kept (u : Unicode) (q : WithStatement .ascii) (toks : List Token) : Prop where
  head : (words u toks).head? = some "WITH"
  first : ∀ t ∈ toks.head?, t.isPunct '@' = false
  last : ∀ t ∈ toks.getLast?, t.isPunct '/' = false
  ending : ∃ front, toks.map shape = front ++ q.ending.map shape ∧ (.punct, [';']) ∉ front
  verb : cteMainVerb u toks = q.seen
  bodies : cteBodyVerbs u toks ≠ [] ↔ q.wraps = 0 ∧ ((∃ c ∈ q.ctes, Bare c) ∨ Lookalike .ascii q.main.rest)

theorem alike_unplaced (ts : List Token) : List.Forall₂ Alike ((ts.map shape).map unplaced) ts := by
  apply forall₂_alike
  rw [List.map_map]
  exact List.map_id _

theorem words_marks (n : Nat) (ts : List Token) : words u (List.replicate n (mark '(') ++ ts) = words u ts := by
  induction n with
  | zero => rfl
  | succ n ih =>
      rw [List.replicate_succ, List.cons_append, ← ih]
      simp [words]

theorem kept_of_framed (h : Framed .ascii u (q.tokens.map shape) (toks.map shape)) : Kept u q toks := by
  obtain ⟨hkind, hupper⟩ := q.opening.2
  have hwith : ¬ Ordinary .ascii (shape q.opening.1) := not_ordinary_word hkind List.mem_cons_self hupper
  obtain ⟨t, tail, hhead, hfirst⟩ := head_tokens q
  have ht : ¬ Ordinary .ascii (shape t) := by
    obtain rfl | rfl := hfirst
    · exact not_ordinary_mark (by decide)
    · exact hwith
  have hcons : Framed .ascii u (shape t :: tail.map shape) (toks.map shape) := by rwa [hhead] at h
  obtain ⟨-, ys, hys, htail⟩ := hcons.cons_left ht
  obtain ⟨t', tail', rfl, ht', rfl⟩ := List.map_eq_cons_iff.1 hys
  refine ⟨?_, ?_, ?_, ?_, ?_, ?_⟩
  · -- the parentheses and `WITH` stay as they are
    obtain ⟨rest, hlead⟩ := lead_tokens q
    have hsplit :
        q.tokens.map shape = List.replicate q.wraps (.punct, ['(']) ++ shape q.opening.1 :: rest.map shape := by
      rw [hlead, List.map_append, List.map_replicate, List.map_cons]
      rfl
    obtain ⟨hagree, pre, post, htoks, hpre, -⟩ := (hsplit ▸ h).split hwith
    obtain ⟨rfl, -⟩ := hpre.rigid fun x hx => (List.eq_of_mem_replicate hx) ▸ not_ordinary_mark (by decide)
    have hopening : (unplaced (shape q.opening.1)).upper u = "WITH" := (hagree hkind "WITH" List.mem_cons_self).1 hupper
    have hword : (unplaced (shape q.opening.1)).kind = .word := hkind
    rw [← words_congr (alike_unplaced _), htoks, List.map_append, List.map_replicate, List.map_cons]
    exact (congrArg List.head? (words_marks q.wraps _)).trans (by simp [words, hword, hopening])
  · intro x hx
    obtain rfl : t' = x := by simpa using hx
    rw [shape_isPunct ht']
    obtain rfl | rfl := hfirst
    · simp
    · simp [Token.isPunct, hkind]
  · intro x hx
    obtain ⟨front, hfront⟩ := List.getLast?_eq_some_iff.1 hx
    rw [Bool.eq_false_iff]
    intro hslash
    have hswap := h.swap
    rw [hfront, List.map_append] at hswap
    obtain ⟨pre, hpre, -, -⟩ := hswap.suffix (by simpa [isPunct_iff.1 hslash] using not_ordinary_mark (by decide))
    obtain ⟨front', y, hy, hno⟩ := last_tokens q
    rw [hy, List.map_append] at hpre
    have hsame := (List.append_inj' hpre rfl).2
    rw [shape_isPunct (List.cons.inj hsame).1, hslash] at hno
    cases hno
  · obtain ⟨front, hfront, hno⟩ := terminator_last q
    rw [hfront, List.map_append] at h
    have hending : ∀ x ∈ q.ending.map shape, ¬ Ordinary .ascii x := by
      intro x hx
      unfold WithStatement.ending at hx
      split at hx
      · obtain rfl := List.mem_singleton.1 hx
        exact not_ordinary_mark (by decide)
      · cases hx
    obtain ⟨front', hpre, -, hframed⟩ := h.suffix hending
    refine ⟨front', hpre, fun hmem => ?_⟩
    obtain ⟨before, after, rfl⟩ := List.append_of_mem hmem
    obtain ⟨-, before', after', heq, -, -⟩ := (Framed.swap hframed).split (not_ordinary_mark (by decide))
    have hx : (.punct, [';']) ∈ front.map shape := by simp [heq]
    obtain ⟨x, hx, hshape⟩ := List.mem_map.1 hx
    have hp := isPunct_iff.2 hshape
    rw [hno x hx] at hp
    cases hp
  · have hverbs : cteMainVerb .ascii q.tokens = mainVerbFrom .ascii 0 ((tail.map shape).map unplaced) := by
      rw [hhead, cteMainVerb, List.tail_cons, mainVerbFrom_congr (alike_unplaced tail)]
    rw [← cteMainVerb_tokens, hverbs, mainVerb_framed htail, cteMainVerb, List.tail_cons,
      mainVerbFrom_congr (alike_unplaced tail')]
  · rw [← cteBodyVerbs_tokens, ← cteBodyVerbs_congr (alike_unplaced (t' :: tail')), ← bodyVerbs_framed h,
      cteBodyVerbs_congr (alike_unplaced q.tokens)]

end Kept

section Accepted

/-- What a removed terminator leaves of the text. -/
theorem withoutTerminator_join (h : Ended u ps rs) : withoutTerminator (join ps) (marks ps) = join rs := by
  unfold withoutTerminator
  cases h with
  | kept h =>
      cases hlast : (marks ps).getLast? with
      | none => rfl
      | some t => simp [h t hlast]
  | removed hl hp => simp [hl.getLast, hp, hl.cut]
  | glued hl hp => simp [hl.getLast, hp, hl.cut]

theorem mem_ended (h : Ended u ps rs) (hp : t.isPunct '/' = true) : t ∈ marks rs ↔ t ∈ marks ps := by
  obtain ⟨tail, hmarks, htail⟩ := h.marks_eq
  rw [hmarks, List.mem_append, or_iff_left]
  intro ht
  rw [isPunct_iff] at hp
  obtain hx | hx := htail t ht
  · rw [isPunct_iff, hp] at hx
    cases hx
  · rw [isPunct_iff, hp] at hx
    cases hx

/-- Some removal of the terminator applies, and leaves no other. -/
theorem exists_ended (hr : Reads (next u) [] ps) (hk : Kept u q (marks ps)) :
    ∃ rs, Ended u ps rs ∧ ∀ t ∈ marks rs, t.isPunct ';' = false := by
  obtain ⟨front, h, hfront⟩ := hk.ending
  have hmem {t : Token} (ht : shape t ∈ front) : t.isPunct ';' = false := by
    rw [Bool.eq_false_iff]
    exact fun hp => hfront (isPunct_iff.1 hp ▸ ht)
  unfold WithStatement.ending at h
  cases hterminated : q.terminated with
  | false =>
      simp only [hterminated, Bool.false_eq_true, if_false, List.map_nil, List.append_nil] at h
      have hno (t : Token) (ht : t ∈ marks ps) : t.isPunct ';' = false := hmem (h ▸ List.mem_map_of_mem ht)
      exact ⟨ps, .kept fun t ht => hno t (List.mem_of_getLast? ht), hno⟩
  | true =>
      simp only [hterminated, if_true, List.map_singleton] at h
      cases hlast : (marks ps).getLast? with
      | none =>
          rw [List.getLast?_eq_none_iff.1 hlast] at h
          simp at h
      | some t =>
          have hp : t.isPunct ';' = true := by
            have hl := congrArg List.getLast? h
            rw [List.getLast?_map, hlast, List.getLast?_concat] at hl
            rw [shape_isPunct (Option.some.inj hl)]
            rfl
          obtain ⟨before, after, hl⟩ := lastMark hlast
          obtain ⟨rs, hended, -, -⟩ := hl.ended hp hr
          refine ⟨rs, hended, fun x hx => hmem ?_⟩
          have hshape : shape x ∈ sigShapes rs := by
            rw [← marks_shape]
            exact List.mem_map_of_mem hx
          rw [marks_shape] at h
          cases hended with
          | kept hk => simp [hk t hlast] at hp
          | removed hl' hp' =>
              rw [removed_shapes hl' hp'] at h
              rwa [← (List.append_inj' h rfl).1]
          | glued hl' hp' =>
              rw [glued_shapes hl' hp', List.append_cons] at h
              rw [← (List.append_inj' h rfl).1]
              exact List.mem_append_left _ hshape

theorem kindOf_with {xs : List String} (h : xs.head? = some "WITH") : kindOf xs = .sql := by
  obtain ⟨rest, rfl⟩ : ∃ rest, xs = "WITH" :: rest := by
    cases xs with
    | nil => cases h
    | cons x xs => exact ⟨xs, by rw [Option.some.inj h]⟩
  rfl

theorem assembles_of (hr : Reads (next u) [] rs) (hk : Kept u q (marks ps)) (hend : Ended u ps rs)
    (hslash : ∀ t ∈ marks rs, t.isPunct '/' = true → standaloneSlash u (join rs) t = false) :
    Assembles u .sql (join rs) (marks rs) (identifierWords u (marks rs)) := by
  have hw : (words u (marks rs)).head? = some "WITH" := by rw [hend.words, hk.head]
  have hne : words u (marks rs) ≠ [] := fun h => by simp [h] at hw
  have hlead : (leadOf u (marks rs)).head? = some "WITH" := by rwa [leadOf, List.head?_take, if_neg (by decide)]
  refine ⟨fun t ht hc => ?_, strip_ne_nil hr hne, ?_, ?_⟩
  · simp [hslash t ht hc.1] at hc
  · rw [namesIn, hlead, if_neg (by decide)]
  · obtain ⟨tail, hmarks, -⟩ := hend.marks_eq
    cases hm : marks rs with
    | nil =>
        rw [hm] at hne
        exact absurd rfl hne
    | cons first rest =>
        refine ⟨first, rest, rfl, ?_⟩
        have hfirst : first.isPunct '@' = false := hk.first first (by rw [hmarks, hm]; rfl)
        have hword : (leadOf u (marks rs)).headD "" = "WITH" := by
          rw [List.headD_eq_head?_getD, hlead]
          rfl
        rw [← hm, refuseClient, hfirst, hword]
        rfl

/-- A text of the shape is accepted, but for what no statement holds. -/
theorem accepted_iff (hr : Reads (next u) [] ps) (hk : Kept u q (marks ps)) : (∃ st, normalize u (join ps) = .ok st) ↔
    '\x00' ∉ join ps ∧ ∀ toks, significantTokens u (join ps) = .ok toks →
      ∀ t ∈ toks, t.isPunct '/' = true → standaloneSlash u (withoutTerminator (join ps) toks) t = false := by
  have hsig := significantTokens_of hr
  have hun : Unslashed u ps ps := .kept fun t ht hc => by simp [hk.last t ht] at hc
  constructor
  · rintro ⟨st, hst⟩
    obtain ⟨ps', qs, rs, hn⟩ := normalize_ok hst
    obtain rfl : ps = ps' := hr.unique hn.reads hn.pieces.symm
    obtain rfl := Unslashed.unique hn.unslashed hun
    refine ⟨hn.nul, fun toks htoks t ht hp => ?_⟩
    rw [hsig] at htoks
    cases htoks
    obtain ⟨-, hended, -⟩ | ⟨hkind, -⟩ := hn.ended
    · obtain ⟨names, ha, -⟩ := hn.built
      rw [withoutTerminator_join hended, ← Bool.not_eq_true]
      exact fun hs => ha.slash t ((mem_ended hended hp).2 ht) ⟨hp, hs⟩
    · exact absurd (hn.kind.trans (kindOf_with hk.head)) hkind
  · rintro ⟨hnul, hslash⟩
    obtain ⟨rs, hended, hone⟩ := exists_ended hr hk
    have hhead := hk.head
    have hne : marks ps ≠ [] := fun hm => by simp [hm, words] at hhead
    have hw : words u (marks ps) ≠ [] := fun hw => by simp [hw] at hhead
    have ha := assembles_of (hended.reads hr) hk hended fun t ht hp => by
      rw [← withoutTerminator_join hended]
      exact hslash _ hsig t ((mem_ended hended hp).1 ht) hp
    exact ⟨_, normalize_run hr hnul hun hw hw (kindOf_with hhead).symm (hended.run hr hne hone) ha⟩

end Accepted

section Admitted

def Caught (q : WithStatement .ascii) : Prop :=
  q.seen ∈ cteDmlVerbs ∨ (q.wraps = 0 ∧ ((∃ c ∈ q.ctes, Bare c) ∨ Lookalike .ascii q.main.rest))

/-- What the adapter sees of the statement. -/
theorem passes_iff (h : normalize u (join ps) = .ok st) (hr : Reads (next u) [] ps) (hk : Kept u q (marks ps)) :
    admitStatement u .postgres st .restartable false = none ↔
      (∀ r ∈ reservedObjectNames, r.toUpper ∉ identifierWords u (marks ps)) ∧ ¬ Caught q := by
  obtain ⟨ps', qs, rs, hn⟩ := normalize_ok h
  obtain rfl : ps = ps' := hr.unique hn.reads hn.pieces.symm
  have hhead := hk.head
  have hlead : (leadOf u (marks ps)).head? = some "WITH" := by rwa [leadOf, List.head?_take, if_neg (by decide)]
  have hst := statement_eq hn (by rw [hhead]; decide)
  rw [kindOf_with hhead] at hst
  have hfirst : st.firstToken = "WITH" := by
    rw [hst, Statement.firstToken, List.headD_eq_head?_getD]
    exact congrArg (Option.getD · "") hlead
  have hnames : st.names = identifierWords u (marks ps) := by
    rw [hst]
    rfl
  have hverb : st.cteVerb = q.seen := by
    rw [hst, ← hk.verb]
    exact if_pos hlead
  have hbodies : st.cteBodyVerbs = cteBodyVerbs u (marks ps) := by
    rw [hst]
    exact if_pos hlead
  have hcontext : refuseContext .postgres st .restartable false = none ↔ ¬ Caught q := by
    have hquery : refuseContext .postgres st .restartable false = refuseWith .postgres st := by
      rw [refuseContext, hfirst]
      rfl
    rw [hquery, refuseWith, hfirst, hverb, hbodies, Caught, ← hk.bodies]
    by_cases hseen : q.seen ∈ cteDmlVerbs
    · simp [hseen]
    · simp [hseen, statementPolicy, postgresPolicy]
  rw [admitStatement_none, ← hcontext, ← hnames, ← reserved_postgres]
  constructor
  · exact fun hp => ⟨hp.reserved, hp.context⟩
  · rintro ⟨hreserved, hpassed⟩
    refine ⟨.inl (by rw [hst]; rfl), ?_, by simp, extraStatementChecks_postgres.2 (by simp), hreserved, hpassed⟩
    rw [hfirst]
    decide

theorem admits_iff (h : Spells s q) (ha : ReadNearly u s) : Admits u s ↔ Clear u s ∧ ¬ Caught q := by
  obtain ⟨ps, rfl, hr, hframed⟩ := framed_of_spelled h ha
  rw [← marks_shape] at hframed
  have hk := kept_of_framed hframed
  have hsig := significantTokens_of hr
  constructor
  · rintro ⟨st, hst, hpassed⟩
    obtain ⟨hnul, hslash⟩ := (accepted_iff hr hk).1 ⟨st, hst⟩
    obtain ⟨hnames, hno⟩ := (passes_iff hst hr hk).1 hpassed
    refine ⟨⟨hnul, hslash, fun toks htoks => ?_⟩, hno⟩
    rw [hsig] at htoks
    cases htoks
    exact hnames
  · rintro ⟨hclear, hno⟩
    obtain ⟨st, hst⟩ := (accepted_iff hr hk).2 ⟨hclear.nul, hclear.slash⟩
    exact ⟨st, hst, (passes_iff hst hr hk).2 ⟨hclear.names _ hsig, hno⟩⟩

end Admitted

section Failures

theorem unseen_iff (hw : q.wraps ≤ 1) :
    Unseen q ↔ ¬ (q.wraps = 0 ∧ ((∃ c ∈ q.ctes, Bare c) ∨ Lookalike .ascii q.main.rest)) := by
  obtain hn | hn : q.wraps = 0 ∨ q.wraps = 1 := by omega
  · simp [Unseen, hn]
  · simp [Unseen, hn]

theorem bare_modifies {c : Cte .ascii} (h : Bare c) : CommonTables.Modifies c.body.main := by
  obtain ⟨name, columns, as, materialized, body⟩ := c
  cases body with
  | plain main => exact h
  | under => exact h.elim

theorem dml_known : ∀ v ∈ clauseVerbs, v ∈ cteDmlVerbs ↔ v ∈ dmlVerbs := by decide

/-- The ways are those of a statement that writes and is not caught, or the other way round. -/
theorem failing_iff : Failing u s q ↔
    (q.Modifies ∧ Clear u s ∧ ¬ Caught q) ∨ (¬ q.Modifies ∧ (¬ Clear u s ∨ Caught q)) := by
  have hmain : q.main.verb.upper .ascii ∈ cteDmlVerbs ↔ CommonTables.Modifies q.main := dml_known _ q.main.known
  constructor
  · intro h
    cases h with
    | wrapped hm hc hw =>
        have hseen : q.seen = "" := if_neg (by omega)
        refine .inl ⟨hm, hc, ?_⟩
        rintro (h | ⟨hzero, -⟩)
        · rw [hseen] at h
          exact absurd h (by decide)
        · omega
    | hidden hm hc hw hn hd hu =>
        have hseen : q.seen = _ := (if_pos hw).trans (congrArg (Option.getD · _) hn)
        refine .inl ⟨hm, hc, fun h => ?_⟩
        rw [Caught, hseen] at h
        exact h.elim hd ((unseen_iff hw).1 hu)
    | body hm hc hw hn hmain' hu =>
        have hseen : q.seen = _ := (if_pos hw).trans (congrArg (Option.getD · _) hn)
        refine .inl ⟨hm, hc, fun h => ?_⟩
        rw [Caught, hseen] at h
        exact h.elim (fun h => hmain' (hmain.1 h)) ((unseen_iff hw).1 hu)
    | accused hm hw hn hd =>
        have hseen : q.seen = _ := (if_pos hw).trans (congrArg (Option.getD · _) hn)
        refine .inr ⟨hm, .inr (.inl ?_)⟩
        rwa [hseen]
    | lookalike hm hw hl => exact .inr ⟨hm, .inr (.inr ⟨hw, .inr hl⟩)⟩
    | unclear hm hc => exact .inr ⟨hm, .inl hc⟩
  · rintro (⟨hm, hc, hno⟩ | ⟨hm, hc | hcaught⟩)
    · by_cases hw : q.wraps ≤ 1
      · have hu := (unseen_iff hw).2 fun h => hno (.inr h)
        cases hn : q.verbName with
        | none =>
            have hseen : q.seen = _ := (if_pos hw).trans (congrArg (Option.getD · _) hn)
            exact .body hm hc hw hn (fun h => hno (.inl (hseen ▸ hmain.2 h))) hu
        | some name =>
            have hseen : q.seen = _ := (if_pos hw).trans (congrArg (Option.getD · _) hn)
            exact .hidden hm hc hw hn (fun h => hno (.inl (hseen ▸ h))) hu
      · exact .wrapped hm hc (by omega)
    · exact .unclear hm hc
    · obtain hverb | ⟨hw, ⟨c, hmem, hbare⟩ | hl⟩ := hcaught
      · have hw : q.wraps ≤ 1 := by
          by_contra hw
          have hseen : q.seen = "" := if_neg hw
          rw [hseen] at hverb
          exact absurd hverb (by decide)
        cases hn : q.verbName with
        | none =>
            have hseen : q.seen = _ := (if_pos hw).trans (congrArg (Option.getD · _) hn)
            rw [hseen] at hverb
            exact absurd (.inl (hmain.1 hverb)) hm
        | some name =>
            have hseen : q.seen = _ := (if_pos hw).trans (congrArg (Option.getD · _) hn)
            rw [hseen] at hverb
            exact .accused hm hw hn hverb
      · exact absurd (.inr ⟨c, hmem, bare_modifies hbare⟩) hm
      · exact .lookalike hm hw hl

end Failures

/-- Where the scanner has the frame of a statement as PostgreSQL has it, the statement is
admitted just when nothing in it writes, but for the ways to fail. -/
theorem unmodifying_admitted_iff (h : Spells s q) (ha : ReadNearly u s) :
    (Admits u s ↔ ¬ q.Modifies) ↔ ¬ Failing u s q := by
  rw [admits_iff h ha, failing_iff]
  by_cases hm : q.Modifies
  · simp [hm]
  · simp [hm]

section Example

/-- A text of which both make the same, all of it below 128. -/
theorem readNearly_of (h : Postgres.lex s = (scan (next .ascii) s).toOption) (hok : (Postgres.lex s).isSome = true) :
    ReadNearly .ascii s := by
  obtain ⟨ps, hps, hr⟩ := reads_of_same h hok
  exact ⟨ps, ps, hps, divides_self hr fun p _ => .inl ⟨rfl, fun x _ _ _ => ascii_upper x.2⟩⟩

def wordToken (w : String) : Token := unplaced (.word, w.toList)

theorem plain_unplaced {x : Shape} (h : x.1 ≠ .punct) : Plain (unplaced x) := by
  simp [Plain, Token.isPunct, unplaced, h]

def keyword (w : String) {word : String} (h : (wordToken w).upper .ascii = word) : Keyword .ascii word :=
  ⟨wordToken w, rfl, h⟩

def nameOf (w : String) (h : (wordToken w).upper .ascii ≠ "AS") : Name .ascii where
  tokens := [wordToken w]
  named := by simp
  plain := by
    intro t ht
    obtain rfl := List.mem_singleton.1 ht
    exact ⟨plain_of_word rfl, fun hc => h hc.2⟩

def clauseOf (verb : String) (rest : List Shape) (hv : (wordToken verb).upper .ascii ∈ clauseVerbs)
    (hr : ∀ x ∈ rest, x.1 ≠ .punct) : Clause .ascii where
  verb := wordToken verb
  word := rfl
  known := hv
  rest := rest.map unplaced
  balanced := balanced_of_plain fun t ht => by
    obtain ⟨x, hx, rfl⟩ := List.mem_map.1 ht
    exact plain_unplaced (hr x hx)
  ended := by
    intro t ht
    obtain ⟨x, hx, rfl⟩ := List.mem_map.1 (List.mem_of_getLast? ht)
    simp [Token.isPunct, unplaced, hr x hx]

def selectOne : Clause .ascii := clauseOf "SELECT" [(.number, ['1'])] (by decide +kernel) (by decide)

def deleteRows : Clause .ascii :=
  clauseOf "DELETE" [(.word, "FROM".toList), (.word, ['t'])] (by decide +kernel) (by decide +kernel)

def deletingText : Text := "WITH a (b) as not materialized (/* all */ DELETE FROM t) SELECT 1;".toList

def deleting : WithStatement .ascii where
  wraps := 0
  opening := keyword "WITH" (by decide +kernel)
  recursive := none
  first := .mk (nameOf "a" (by decide +kernel)) (some ⟨[wordToken "b"], .token (plain_of_word rfl) .nil⟩)
    (keyword "as" (by decide +kernel))
    (.no (keyword "not" (by decide +kernel)) (keyword "materialized" (by decide +kernel))) (.plain deleteRows)
  more := []
  main := selectOne
  terminated := true

theorem unmodifying_admitted_iff_deleting : Admits .ascii deletingText ↔ ¬ deleting.Modifies := by
  have hspells : Spells deletingText deleting := spelled_of (by decide +kernel)
  have hread : ReadNearly .ascii deletingText := readNearly_of (by decide +kernel) (by decide +kernel)
  have hbare : Bare deleting.first := (by decide +kernel : _ ∈ _)
  have hmodifies : deleting.Modifies := .inr ⟨deleting.first, List.mem_cons_self, bare_modifies hbare⟩
  have hname : deleting.verbName = none := by decide +kernel
  refine (unmodifying_admitted_iff hspells hread).2 fun hf => ?_
  cases hf with
  | wrapped _ _ hw => exact absurd hw (by decide)
  | hidden _ _ _ hn => exact absurd (hname.symm.trans hn) (by simp)
  | body _ _ _ _ _ hu =>
      obtain hw | ⟨hno, -⟩ := hu
      · exact absurd hw (by decide)
      · exact hno deleting.first List.mem_cons_self hbare
  | accused hm => exact hm hmodifies
  | lookalike hm => exact hm hmodifies
  | unclear hm => exact hm hmodifies

def slipping : Text := "WITH values AS (SELECT 1) DELETE FROM t".toList

def slippingStatement : WithStatement .ascii where
  wraps := 0
  opening := keyword "WITH" (by decide +kernel)
  recursive := none
  first := .mk (nameOf "values" (by decide +kernel)) none (keyword "AS" (by decide +kernel)) .unsaid (.plain selectOne)
  more := []
  main := deleteRows
  terminated := false

theorem slipping_admitted : Spells slipping slippingStatement ∧ slippingStatement.Modifies ∧
    Admits .ascii slipping := by
  refine ⟨spelled_of (by decide +kernel), .inl (by decide +kernel : _ ∈ _), ?_⟩
  have hrun : ((normalize .ascii slipping).map fun st => admitStatement .ascii .postgres st .restartable false) =
      .ok none := by
    decide +kernel
  cases hst : normalize .ascii slipping with
  | error e =>
      rw [hst] at hrun
      cases hrun
  | ok st =>
      rw [hst] at hrun
      exact ⟨st, hst, Except.ok.inj hrun⟩

end Example

end Migr8.Modifying
