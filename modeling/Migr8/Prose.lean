import Migr8.Congruence
import Migr8.Projection
import Migr8.Admission

namespace Migr8.Prose

open Errors Model Driver Characters SqlText Scanner Pieces Migr8.Normal Congruence Projection Admission

/-- The tokens agree, but for the contents of the literals that stand in no
identifier position. -/
inductive Agree (u : Unicode) : Option Token → List Token → List Token → Prop
  | nil {previous : Option Token} : Agree u previous [] []
  | cons {previous : Option Token} {a b : Token} {as bs : List Token} (hab : Alike a b)
      (hs : a.kind = .string → previous.any (inIdentifierPosition u) = true → a.text = b.text)
      (h : Agree u (some a) as bs) : Agree u previous (a :: as) (b :: bs)

variable {u : Unicode} {s s' : Text} {st st' : Statement} {toks toks' tail before : List Token}
  {previous : Option Token}
  {ps qs rs : List SqlPiece} {adapter : Adapter} {mode : Mode} {inBatch : Bool}

section Fields

theorem Agree.alike (h : Agree u previous toks toks') : List.Forall₂ Alike toks toks' := by
  induction h with
  | nil => exact .nil
  | cons hab _ _ ih => exact .cons hab ih

theorem position_alike {a b : Token} (h : Alike a b) : inIdentifierPosition u a = inIdentifierPosition u b := by
  unfold inIdentifierPosition
  rw [h.isPunct, ← h.1]
  by_cases hk : a.kind = .word
  · rw [(h.word (u := u) hk).2]
  · simp [hk]

/-- The literals that stand for names are the same. -/
theorem Agree.strings (h : Agree u previous toks toks') :
    stringsInIdentifierPosition u toks = stringsInIdentifierPosition u toks' := by
  induction h with
  | nil => rfl
  | @cons previous a b as bs hab hs h ih =>
      cases h with
      | nil => rfl
      | @cons _ a' b' as bs hab' hs' h =>
          simp only [stringsInIdentifierPosition, ih, ← position_alike (u := u) hab]
          by_cases hposition : inIdentifierPosition u a = true
          · have hvalue : stringValue a' = stringValue b' := by
              by_cases hk : a'.kind = .string
              · rw [stringValue, stringValue, ← hab'.1, hs' hk hposition]
              · rw [stringValue, stringValue, ← hab'.1]
                simp [hk]
            rw [hvalue]
          · simp only [hposition, Bool.false_eq_true, if_false]
            cases stringValue a' <;> cases stringValue b' <;> rfl

def Closing (tail : List Token) : Prop := ∀ t ∈ tail, ∃ c, c ≠ '(' ∧ c ≠ ')' ∧ shape t = (.punct, [c])

theorem closing_cons {t : Token} (h : Closing (t :: tail)) : (∃ c, c ≠ '(' ∧ c ≠ ')' ∧ t.kind = .punct ∧ t.text = [c]) ∧
    Closing tail := by
  obtain ⟨c, hopen, hclose, hc⟩ := h t List.mem_cons_self
  exact ⟨⟨c, hopen, hclose, by simpa [shape] using hc⟩, fun t ht => h t (List.mem_cons_of_mem _ ht)⟩

theorem words_closing (h : Closing tail) : words u tail = [] := by
  rw [words, List.map_eq_nil_iff, List.filter_eq_nil_iff]
  intro t ht
  obtain ⟨c, -, -, hc⟩ := h t ht
  have hk : t.kind = .punct := congrArg Prod.fst hc
  simp [hk]

theorem words_append : words u (toks ++ tail) = words u toks ++ words u tail := by simp [words]

theorem identifierWords_closing (h : Closing tail) : identifierWords u (toks ++ tail) = identifierWords u toks := by
  have hquoted : (tail.filter fun t => t.kind = .quotedIdent) = [] := by
    rw [List.filter_eq_nil_iff]
    intro t ht
    obtain ⟨c, -, -, hc⟩ := h t ht
    have hk : t.kind = .punct := congrArg Prod.fst hc
    simp [hk]
  simp [identifierWords, words_append, words_closing h, hquoted]

theorem stringValue_closing {t : Token} (h : Closing (t :: tail)) : stringValue t = none := by
  obtain ⟨⟨c, -, -, hk, -⟩, -⟩ := closing_cons h
  simp [stringValue, hk]

theorem strings_closing (h : Closing tail) :
    stringsInIdentifierPosition u (toks ++ tail) = stringsInIdentifierPosition u toks := by
  have hnone : stringsInIdentifierPosition u tail = [] := by
    induction tail with
    | nil => rfl
    | cons t tail ih =>
        cases tail with
        | nil => rfl
        | cons t' tail =>
            have hrest := (closing_cons h).2
            rw [stringsInIdentifierPosition, stringValue_closing hrest]
            exact ih hrest
  induction toks with
  | nil => simpa [stringsInIdentifierPosition] using hnone
  | cons t toks ih =>
      cases toks with
      | nil =>
          cases tail with
          | nil => rfl
          | cons t' tail =>
              have hrest : stringsInIdentifierPosition u (t' :: tail) = [] := hnone
              simp only [List.singleton_append, stringsInIdentifierPosition, stringValue_closing h, hrest]
      | cons t' toks =>
          simp only [List.cons_append, stringsInIdentifierPosition] at ih ⊢
          rw [ih]

theorem mainVerbFrom_closing (h : Closing tail) (depth : Int) :
    mainVerbFrom u depth (toks ++ tail) = mainVerbFrom u depth toks := by
  induction toks generalizing depth with
  | nil =>
      induction tail with
      | nil => rfl
      | cons t tail ih =>
          obtain ⟨⟨c, hopen, hclose, hk, ht⟩, hrest⟩ := closing_cons h
          simp only [List.nil_append, mainVerbFrom, hk, if_true, ht, List.cons.injEq, hopen, hclose, false_and,
            if_false]
          exact ih hrest
  | cons t toks ih =>
      simp only [List.cons_append, mainVerbFrom, ih]

theorem cteMainVerb_closing (h : Closing tail) : cteMainVerb u (toks ++ tail) = cteMainVerb u toks := by
  unfold cteMainVerb
  cases toks with
  | nil =>
      have hrest : mainVerbFrom u 0 ([] ++ tail.tail) = mainVerbFrom u 0 [] :=
        mainVerbFrom_closing (fun t ht => h t (List.mem_of_mem_tail ht)) 0
      exact hrest
  | cons t toks => exact mainVerbFrom_closing h 0

theorem bodyVerbsFrom_closing (h : Closing tail) (depth : Int) :
    bodyVerbsFrom u before depth (toks ++ tail) = bodyVerbsFrom u before depth toks := by
  induction toks generalizing before depth with
  | nil =>
      induction tail generalizing before with
      | nil => rfl
      | cons t tail ih =>
          obtain ⟨⟨c, hopen, hclose, hk, ht⟩, hrest⟩ := closing_cons h
          have hno : t.isPunct '(' = false ∧ t.isPunct ')' = false := by simp [Token.isPunct, ht, hopen, hclose]
          rw [List.nil_append]
          unfold bodyVerbsFrom
          rw [hno.1, hno.2, if_neg Bool.false_ne_true, if_neg Bool.false_ne_true]
          exact ih hrest
  | cons t toks ih =>
      simp only [List.cons_append, bodyVerbsFrom, ih]
      cases toks with
      | cons t' toks => rfl
      | nil =>
          cases tail with
          | nil => rfl
          | cons t' tail =>
              obtain ⟨⟨c, -, -, hk, -⟩, -⟩ := closing_cons h
              simp [hk]

end Fields

section Built

def reworded (st : Statement) (text : Text) : Statement := { st with text := text }

theorem closing_of (cs : List Char) (h : ∀ c ∈ cs, c ≠ '(' ∧ c ≠ ')') :
    ∃ tail : List Token, Closing tail ∧ tail.map shape = cs.map fun c => (TokenKind.punct, [c]) := by
  refine ⟨cs.map fun c => ⟨.punct, [c], 0, 0⟩, fun t ht => ?_, by simp [shape]⟩
  obtain ⟨c, hc, rfl⟩ := List.mem_map.1 ht
  exact ⟨c, (h c hc).1, (h c hc).2, rfl⟩

/-- What the normalisation takes off the end of the text holds no parenthesis. -/
theorem shapes_closing (h : Normalizes u s st ps qs rs) :
    ∃ tail, Closing tail ∧ (marks ps).map shape = (marks rs ++ tail).map shape := by
  have hslash : ∃ cs : List Char, (∀ c ∈ cs, c ≠ '(' ∧ c ≠ ')') ∧ sigShapes ps = sigShapes qs ++ cs.map fun c =>
      (.punct, [c]) := by
    cases h.unslashed with
    | kept => exact ⟨[], by simp, by simp⟩
    | removed hl hp => exact ⟨['/'], by simp, removed_shapes hl hp⟩
  have hend : ∃ cs : List Char, (∀ c ∈ cs, c ≠ '(' ∧ c ≠ ')') ∧ sigShapes qs = sigShapes rs ++ cs.map fun c =>
      (.punct, [c]) := by
    obtain ⟨-, hended, -⟩ | ⟨-, rfl, -⟩ := h.ended
    · obtain hx | hx | hx := hended.shapes
      · exact ⟨[], by simp, by simp [hx]⟩
      · exact ⟨[';'], by simp, hx⟩
      · exact ⟨['-', ';'], by simp, hx⟩
    · exact ⟨[], by simp, by simp⟩
  obtain ⟨cs, hcs, hps⟩ := hslash
  obtain ⟨ds, hds, hqs⟩ := hend
  obtain ⟨tail, htail, hshape⟩ := closing_of (ds ++ cs) fun c hc => (List.mem_append.1 hc).elim (hds c) (hcs c)
  refine ⟨tail, htail, ?_⟩
  rw [List.map_append, hshape, marks_shape, marks_shape, hps, hqs, List.map_append, List.append_assoc]

/-- The statement, by the tokens of the whole text. -/
theorem statement_eq (h : Normalizes u s st ps qs rs) (hdo : (words u (marks ps)).head? ≠ some "DO") :
    st = build u (kindOf (words u (marks ps))) st.text (marks ps) (identifierWords u (marks ps)) := by
  obtain ⟨tail, htail, hshape⟩ := shapes_closing h
  have hsame := forall₂_of_shapes hshape
  have halike := hsame.imp fun _ _ => alike_of_shape
  have hwords : words u (marks ps) = words u (marks rs) := by
    rw [words_congr halike, words_append, words_closing htail, List.append_nil]
  have hlead : leadOf u (marks rs) = leadOf u (marks ps) := by rw [leadOf, leadOf, hwords]
  obtain ⟨names, ha, hst⟩ := h.built
  have hnames : names = identifierWords u (marks ps) := by
    have hnamed := ha.named
    have hnot : (leadOf u (marks rs)).head? ≠ some "DO" := by
      rw [hlead, leadOf, List.head?_take, if_neg (by simp)]
      exact hdo
    rw [namesIn, if_neg hnot] at hnamed
    rw [identifierWords_congr halike, identifierWords_closing htail]
    exact (Except.ok.inj hnamed).symm
  rw [← kind_eq h]
  have htext : st.text = u.strip (Lib.Scanning.join rs) := by rw [hst]; rfl
  conv_lhs => rw [hst]
  rw [htext, hnames]
  unfold build
  simp only [hlead, strings_congr hsame, strings_closing htail, cteMainVerb_congr halike, cteMainVerb_closing htail,
    cteBodyVerbs_congr halike]
  have hbodies : cteBodyVerbs u (marks rs ++ tail) = cteBodyVerbs u (marks rs) := bodyVerbsFrom_closing htail 0
  rw [hbodies]

/-- Agreeing tokens make statements that differ in their texts only. -/
theorem reworded_of_agree (h : normalize u s = .ok st) (h' : normalize u s' = .ok st')
    (ht : significantTokens u s = .ok toks) (ht' : significantTokens u s' = .ok toks')
    (hdo : (words u toks).head? ≠ some "DO") (hagree : Agree u none toks toks') : st' = reworded st st'.text := by
  obtain ⟨ps, qs, rs, hn⟩ := normalize_ok h
  obtain ⟨ps', qs', rs', hn'⟩ := normalize_ok h'
  rw [← hn.pieces, significantTokens_of hn.reads] at ht
  rw [← hn'.pieces, significantTokens_of hn'.reads] at ht'
  cases ht
  cases ht'
  have halike := hagree.alike
  have hwords := words_congr (u := u) halike
  rw [statement_eq hn hdo, statement_eq hn' (by rw [← hwords]; exact hdo)]
  simp only [reworded, build, leadOf, hwords, identifierWords_congr halike, hagree.strings, cteMainVerb_congr halike,
    cteBodyVerbs_congr halike]
  rfl

end Built

section Verdicts

def verdict (r : Option TextRefusal) : Option RefusalKind := r.map (·.kind)

/-- Both statements are treated alike. -/
structure Unswayed (u : Unicode) (adapter : Adapter) (st st' : Statement) : Prop where
  statement : ∀ mode inBatch, verdict (admitStatement u adapter st mode inBatch) =
    verdict (admitStatement u adapter st' mode inBatch)
  ddl : verdict (admitDdl u adapter st) = verdict (admitDdl u adapter st')
  path : admitDdl u adapter st = none → runsDirectly u adapter st = runsDirectly u adapter st'

/-- PostgreSQL would admit a statement like this one, if no word of its text stood
in the way. -/
def Eligible (st : Statement) : Prop :=
  (∀ r ∈ reservedObjectNames, r.toUpper ∉ st.names) ∧
    ((st.kind = .sql ∧ st.firstToken ∉ postgresPolicy.forbidden ∧ st.firstToken ∈ postgresPolicy.atomic) ∨
      (st.kind ≠ .plsqlBlock ∧ st.firstToken ∈ postgresPolicy.ddl))

theorem reserved_postgres :
    rejectReserved .postgres st = none ↔ ∀ r ∈ reservedObjectNames, r.toUpper ∉ st.names := rejectReserved_none

theorem verdict_none {r : Option TextRefusal} : verdict r = none ↔ r = none := by
  cases r <;> simp [verdict]

theorem refuseContext_inside (hm : mode = .atomic ∨ inBatch = true) : refuseContext adapter st mode inBatch =
    if st.firstToken ∈ (statementPolicy adapter).atomic then none
    else some (usageRefusal (st.firstToken ++ " is not admitted in an atomic transaction or a restartable batch; " ++
      "admitted leading tokens are " ++ listed (statementPolicy adapter).atomic)) :=
  if_pos hm

theorem eligible_passes (hk : st.kind = .sql) (hf : st.firstToken ∉ postgresPolicy.forbidden)
    (ha : st.firstToken ∈ postgresPolicy.atomic) (hr : ∀ r ∈ reservedObjectNames, r.toUpper ∉ st.names) :
    admitStatement u .postgres st .atomic false = none ↔ isConcurrent u st = false := by
  rw [admitStatement_none]
  constructor
  · exact fun h => extraStatementChecks_postgres.1 h.extra (.inl rfl)
  · intro hc
    exact ⟨.inl hk, hf, by simp, extraStatementChecks_postgres.2 fun _ => hc, reserved_postgres.2 hr,
      by rw [refuseContext_inside (.inl rfl)]; exact if_pos ha⟩

/-- A refusal of the later checks is a usage error. -/
theorem usage_of_ineligible (hno : ¬ Eligible st) (hk : st.kind = .sql) (hf : st.firstToken ∉ postgresPolicy.forbidden)
    (hm : mode = .atomic ∨ inBatch = true) : verdict (firstRefusal [extraStatementChecks u .postgres st mode inBatch,
      rejectReserved .postgres st, refuseContext .postgres st mode inBatch]) = some .usage := by
  by_cases hc : isConcurrent u st = true
  · simp [extraStatementChecks, hm, hc, firstRefusal, verdict, usageRefusal]
  · have hextra : extraStatementChecks u .postgres st mode inBatch = none :=
      extraStatementChecks_postgres.2 fun _ => by simpa using hc
    rw [hextra]
    cases hr : rejectReserved .postgres st with
    | some r =>
        obtain ⟨name, -, rfl⟩ := Option.map_eq_some_iff.1 hr
        rfl
    | none =>
        have ha : st.firstToken ∉ postgresPolicy.atomic := fun ha =>
          hno ⟨reserved_postgres.1 hr, .inl ⟨hk, hf, ha⟩⟩
        rw [refuseContext_inside hm, statementPolicy, if_neg ha]
        rfl

/-- The checks before the word is looked for are the same for both. -/
theorem verdict_congr {checks checks' : List (Option TextRefusal)} (r : Option TextRefusal)
    (h : r = none → verdict (firstRefusal checks) = verdict (firstRefusal checks')) :
    verdict (firstRefusal (r :: checks)) = verdict (firstRefusal (r :: checks')) := by
  cases r with
  | none => exact h rfl
  | some r => rfl

theorem statement_unswayed (hno : ¬ Eligible st) (text : Text) :
    verdict (admitStatement u .postgres st mode inBatch) =
    verdict (admitStatement u .postgres (reworded st text) mode inBatch) := by
  refine verdict_congr _ fun hkind => verdict_congr _ fun hforbidden => verdict_congr _ fun hddl => ?_
  have hk : st.kind = .sql := by
    by_contra hk
    rw [if_pos ⟨hk, rfl⟩] at hkind
    cases hkind
  have hf : st.firstToken ∉ postgresPolicy.forbidden := some_if_none.1 hforbidden
  by_cases hm : mode = .atomic ∨ inBatch = true
  · have hno' : ¬ Eligible (reworded st text) := hno
    rw [usage_of_ineligible hno hk hf hm]
    exact (usage_of_ineligible hno' hk hf hm).symm
  · have hextra (st : Statement) : extraStatementChecks u .postgres st mode inBatch = none :=
      extraStatementChecks_postgres.2 fun h => absurd h hm
    rw [hextra, hextra]
    rfl

/-- The text itself is looked at in one place only. -/
theorem unswayed_of_concurrent {text : Text}
    (h : adapter = .postgres → isConcurrent u st = isConcurrent u (reworded st text)) :
    Unswayed u adapter st (reworded st text) := by
  have hextra (mode inBatch) : extraStatementChecks u adapter st mode inBatch =
      extraStatementChecks u adapter (reworded st text) mode inBatch := by
    cases adapter with
    | sqlite => rfl
    | oracle => rfl
    | postgres =>
        unfold extraStatementChecks
        rw [h rfl]
        rfl
  refine ⟨fun mode inBatch => ?_, ?_, fun _ => ?_⟩
  · unfold admitStatement
    rw [hextra]
    rfl
  · unfold admitDdl
    rw [hextra]
    rfl
  · unfold runsDirectly
    cases adapter with
    | sqlite => rfl
    | oracle => rfl
    | postgres => rw [h rfl]

theorem ddl_postgres (h : Eligible st) (hk : st.kind ≠ .plsqlBlock) (hd : st.firstToken ∈ postgresPolicy.ddl) :
    admitDdl u .postgres st = none :=
  admitDdl_none.2 ⟨hk, hd, extraStatementChecks_postgres.2 (by simp), reserved_postgres.2 h.1⟩

theorem unswayed_iff {text : Text} : Unswayed u .postgres st (reworded st text) ↔
    isConcurrent u st = isConcurrent u (reworded st text) ∨ ¬ Eligible st := by
  constructor
  · intro h
    by_contra hno
    obtain ⟨hdiff, heligible⟩ := not_or.1 hno
    rw [not_not] at heligible
    obtain ⟨hreserved, ⟨hk, hf, ha⟩ | ⟨hk, hd⟩⟩ := heligible
    · have hsame := h.statement .atomic false
      have hiff : admitStatement u .postgres st .atomic false = none ↔
          admitStatement u .postgres (reworded st text) .atomic false = none := by
        rw [← verdict_none, hsame, verdict_none]
      have hk' : (reworded st text).kind = .sql := hk
      rw [eligible_passes hk hf ha hreserved, eligible_passes hk' hf ha hreserved] at hiff
      apply hdiff
      cases hc : isConcurrent u st <;> cases hc' : isConcurrent u (reworded st text) <;> simp_all
    · have hpath := h.path (ddl_postgres ⟨hreserved, .inr ⟨hk, hd⟩⟩ hk hd)
      exact hdiff (by simpa [runsDirectly] using hpath)
  · rintro (h | h)
    · exact unswayed_of_concurrent fun _ => h
    · refine ⟨fun mode inBatch => statement_unswayed h text, ?_, fun hadmitted => ?_⟩
      · unfold admitDdl
        have hextra (st : Statement) : extraStatementChecks u .postgres st .restartable false = none :=
          extraStatementChecks_postgres.2 (by simp)
        rw [hextra, hextra]
        rfl
      · have hpasses := admitDdl_none.1 hadmitted
        exact absurd ⟨reserved_postgres.1 hpasses.reserved, .inr ⟨hpasses.kind, hpasses.listed⟩⟩ h

end Verdicts

/-- Prose sways nothing but the search of PostgreSQL's statements for one word. -/
theorem prose_unswayed_iff (adapter : Adapter) (h : normalize u s = .ok st) (h' : normalize u s' = .ok st')
    (ht : significantTokens u s = .ok toks) (ht' : significantTokens u s' = .ok toks')
    (hdo : (words u toks).head? ≠ some "DO") (hagree : Agree u none toks toks') :
    Unswayed u adapter st st' ↔ (adapter = .postgres → isConcurrent u st = isConcurrent u st' ∨ ¬ Eligible st) := by
  have hst := reworded_of_agree h h' ht ht' hdo hagree
  rw [hst]
  by_cases ha : adapter = .postgres
  · subst ha
    rw [unswayed_iff]
    simp
  · exact iff_of_true (unswayed_of_concurrent fun hp => absurd hp ha) fun hp => absurd hp ha

section Example

def plainIndex : Text := "CREATE INDEX i ON t(x)".toList

def remarkedIndex : Text := "CREATE INDEX i ON t(x) /* CONCURRENTLY */".toList

def indexStatement (text : Text) : Statement where
  text := text
  kind := .sql
  lead := ["CREATE", "INDEX", "I", "ON"]
  names := ["CREATE", "INDEX", "I", "ON", "T", "X"]

theorem normalize_index : normalize .ascii plainIndex = .ok (indexStatement plainIndex) ∧
    normalize .ascii remarkedIndex = .ok (indexStatement remarkedIndex) := by
  decide +kernel

def indexTokens : List Token :=
  [⟨.word, "CREATE".toList, 0, 6⟩, ⟨.word, "INDEX".toList, 7, 12⟩, ⟨.word, ['i'], 13, 14⟩, ⟨.word, "ON".toList, 15, 17⟩,
    ⟨.word, ['t'], 18, 19⟩, ⟨.punct, ['('], 19, 20⟩, ⟨.word, ['x'], 20, 21⟩, ⟨.punct, [')'], 21, 22⟩]

theorem tokens_index : significantTokens .ascii plainIndex = .ok indexTokens ∧
    significantTokens .ascii remarkedIndex = .ok indexTokens := by
  decide +kernel

theorem agree_self : ∀ (toks : List Token) (previous : Option Token), Agree u previous toks toks
  | [], _ => .nil
  | t :: toks, _ => .cons ⟨rfl, fun _ => rfl⟩ (fun _ _ => rfl) (agree_self toks (some t))

def describedIndex : Text := "CREATE INDEX i ON t(x) /* by hand */".toList

theorem prose_unswayed_iff_described :
    Unswayed .ascii .postgres (indexStatement plainIndex) (indexStatement describedIndex) := by
  have hrun : normalize .ascii describedIndex = .ok (indexStatement describedIndex) := by decide +kernel
  have htoks : significantTokens .ascii describedIndex = .ok indexTokens := by decide +kernel
  apply (prose_unswayed_iff .postgres normalize_index.1 hrun tokens_index.1 htoks (by decide +kernel)
    (agree_self _ _)).2
  exact fun _ => .inl (by decide +kernel)

/-- The comment takes the statement out of its transaction. -/
theorem remark_sways : normalize .ascii plainIndex = .ok (indexStatement plainIndex) ∧
    normalize .ascii remarkedIndex = .ok (indexStatement remarkedIndex) ∧
    significantTokens .ascii plainIndex = significantTokens .ascii remarkedIndex ∧
    ¬ Unswayed .ascii .postgres (indexStatement plainIndex) (indexStatement remarkedIndex) := by
  refine ⟨normalize_index.1, normalize_index.2, by rw [tokens_index.1, tokens_index.2], fun h => ?_⟩
  have hpath := h.path (by decide +kernel)
  have hdiff : runsDirectly .ascii .postgres (indexStatement plainIndex) ≠
      runsDirectly .ascii .postgres (indexStatement remarkedIndex) := by
    decide +kernel
  exact hdiff hpath

end Example

end Migr8.Prose
