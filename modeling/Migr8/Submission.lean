import Migr8.Lib.Bodies
import Migr8.Projection
import Migr8.Admission

namespace Migr8.Submission

open Model Characters Lib.Bodies Lib.Scanning SqlText Scanner Pieces Migr8.Normal Projection Admission

variable {u : Unicode} {s text : Text} {st : Statement} {xs ys : List Shape} {x : Shape} {ps qs rs : List SqlPiece}
  {routine : Bool}

def semicolon : Shape := (.punct, [';'])

def isWord (u : Unicode) (word : String) (x : Shape) : Bool := x.1 = .word && String.ofList (u.upper x.2) = word

def wordsOf (u : Unicode) (xs : List Shape) : List String :=
  (xs.filter (·.1 = .word)).map fun x => String.ofList (u.upper x.2)

def depthOf (xs : List Shape) : Int := xs.count (.punct, ['(']) - xs.count (.punct, [')'])

def createsRoutine : List String → Bool
  | "CREATE" :: "OR" :: "REPLACE" :: word :: _ => word ∈ ["FUNCTION", "PROCEDURE"]
  | "CREATE" :: word :: _ => word ∈ ["FUNCTION", "PROCEDURE"]
  | _ => false

/-- PostgreSQL's statements: `BEGIN ATOMIC` outside parentheses opens the body of a
routine, and `END` closes it where a statement of the body would begin. -/
def routines (u : Unicode) : Grammar Shape where
  mark x := x = semicolon
  opens before x := isWord u "ATOMIC" x && before.getLast?.any (isWord u "BEGIN") && depthOf before = 0 &&
    createsRoutine (wordsOf u before)
  closes := isWord u "END"

/-- Every `;` of the text is its last token or lies in the body of a routine. -/
def OneStatement (u : Unicode) (text : Text) : Prop :=
  ∃ toks, significantTokens u text = .ok toks ∧ Single (routines u) (toks.map shape)

/-- The text does not open as a stored definition of Oracle's. Or it ends with its only
`;`, a standalone slash after it aside. Or up to that `;` it is a `CREATE FUNCTION` or
`CREATE PROCEDURE` as PostgreSQL writes it: no `;` up to `BEGIN ATOMIC`, then statements
that each end with `;`, then `END`, then no `;`. -/
def Separated (u : Unicode) (s : Text) : Prop :=
  ∃ toks, significantTokens u s = .ok toks ∧ (kindOf (words u toks) = .plsqlDefinition →
    ∃ xs, (withoutTerminators u .plsqlDefinition s toks).map shape = xs ++ [semicolon] ∧
      (semicolon ∉ xs ∨ Reads (routines u) (.statement []) xs))

section Edges

theorem wordsOf_append : wordsOf u (xs ++ ys) = wordsOf u xs ++ wordsOf u ys := by simp [wordsOf]

def Edge (u : Unicode) (x : Shape) : Prop := ∃ c, x = (.punct, [c]) ∧ u.isSpace c = true

theorem mark_not_edge : ∀ c ∈ ['(', ')', ';'], c.toNat < 128 ∧ isAsciiSpace c = false := forall_of_all (by decide)

theorem Edge.ne (h : Edge u x) {c : Char} (hc : c ∈ ['(', ')', ';']) : x ≠ (.punct, [c]) := by
  rintro rfl
  obtain ⟨d, hd, hs⟩ := h
  obtain rfl : c = d := by simpa using hd
  obtain ⟨hlt, hno⟩ := mark_not_edge c hc
  rw [u.ascii_space c hlt, hno] at hs
  cases hs

theorem Edge.not_word (h : Edge u x) (word : String) : isWord u word x = false := by
  obtain ⟨c, rfl, -⟩ := h
  rfl

theorem wordsOf_edges (h : ∀ x ∈ xs, Edge u x) : wordsOf u xs = [] := by
  rw [wordsOf, List.map_eq_nil_iff, List.filter_eq_nil_iff]
  intro x hx
  obtain ⟨c, rfl, -⟩ := h x hx
  simp

theorem depthOf_edges (h : ∀ x ∈ xs, Edge u x) : depthOf xs = 0 := by
  have hnone (c) (hc : c ∈ ['(', ')', ';']) : xs.count (.punct, [c]) = 0 :=
    List.count_eq_zero.2 fun hx => (h _ hx).ne hc rfl
  rw [depthOf, hnone '(' (by simp), hnone ')' (by simp)]
  rfl

/-- White space in front of a statement opens no body in it. -/
theorem opens_edges (h : ∀ x ∈ xs, Edge u x) : (routines u).opens (xs ++ ys) x = (routines u).opens ys x := by
  have hdepth : depthOf (xs ++ ys) = depthOf ys := by
    have hxs := depthOf_edges h
    simp only [depthOf, List.count_append, Int.natCast_add] at hxs ⊢
    omega
  have hlast : (xs ++ ys).getLast?.any (isWord u "BEGIN") = ys.getLast?.any (isWord u "BEGIN") := by
    cases ys with
    | nil =>
        rw [List.append_nil, List.getLast?_nil, Option.any_none, Option.any_eq_false]
        intro x hx
        rw [(h x (List.mem_of_getLast? hx)).not_word]
    | cons y ys => rw [List.getLast?_append_cons]
  simp only [routines, hdepth, hlast, wordsOf_append, wordsOf_edges h, List.nil_append]

theorem reads_edges (h : ∀ x ∈ xs, Edge u x) : Reads (routines u) (.statement []) (xs ++ ys) ↔
    Reads (routines u) (.statement []) ys := by
  have hquiet : ∀ x ∈ xs, (routines u).mark x = false ∧ ∀ before, (routines u).opens before x = false := by
    intro x hx
    refine ⟨?_, fun before => ?_⟩
    · exact decide_eq_false ((h x hx).ne (by simp))
    · simp [routines, (h x hx).not_word]
  rw [reads_append hquiet, List.nil_append]
  constructor
  · intro hr
    refine hr.congr fun zs x => ?_
    rw [opens_edges h, List.nil_append]
  · intro hr
    refine hr.congr fun zs x => ?_
    rw [opens_edges h, List.nil_append]

theorem mark_eq_false : (∀ x ∈ xs, (routines u).mark x = false) ↔ semicolon ∉ xs := by
  simp [routines]
  grind

/-- Without a semicolon there is nothing to enclose. -/
theorem single_of_none (h : semicolon ∉ xs) : Single (routines u) xs := by
  rintro before x after rfl hm
  obtain rfl : x = semicolon := by simpa [routines] using hm
  exact absurd (by simp) h

theorem edge_of_blank (hr : Reads (next u) [] ps) (hsub : ∀ p ∈ qs, p ∈ ps ∧ blank u p = true) :
    ∀ x ∈ sigShapes qs, Edge u x := by
  rintro ⟨kind, t⟩ hx
  obtain ⟨hkind, hp⟩ := mem_sigShapes.1 hx
  obtain ⟨hps, hblank⟩ := hsub _ hp
  obtain ⟨k, c, t', z, he, hl⟩ := reads_lexes hr hps
  cases he
  have hspace := (blank_iff hl).1 hblank
  by_cases hpunct : kind = .punct
  · subst hpunct
    obtain rfl := short_text hl (.inr rfl)
    exact ⟨c, rfl, hspace⟩
  · rw [head_not_space hl (by simp) (by simpa using hpunct)] at hspace
    cases hspace

/-- A text that ends with a semicolon loses nothing at its end but white space. -/
theorem shapes_core_of_semicolon (hr : Lib.Scanning.Reads (next u) [] ps)
    (hlast : (sigShapes ps).getLast? = some semicolon) :
    ∃ xs ys, (∀ x ∈ xs, Edge u x) ∧ sigShapes ps = xs ++ (ys ++ [semicolon]) ∧
      sigShapes (core u ps) = ys ++ [semicolon] := by
  have hsplit : sigShapes ps = sigShapes (lead u ps) ++ (sigShapes (core u ps) ++ sigShapes (trail u ps)) := by
    rw [← sigShapes_append, ← sigShapes_append, lead_core_trail]
  have hlead : ∀ x ∈ sigShapes (lead u ps), Edge u x := edge_of_blank hr fun p hp => mem_lead hp
  have htrail : sigShapes (trail u ps) = [] := by
    by_contra hne
    have hmem : semicolon ∈ sigShapes (trail u ps) := by
      rw [hsplit, ← List.append_assoc, List.getLast?_append_of_ne_nil _ hne] at hlast
      exact List.mem_of_getLast? hlast
    exact (edge_of_blank hr (fun p hp => mem_trail hp) _ hmem).ne (c := ';') (by simp) rfl
  rw [htrail, List.append_nil] at hsplit
  obtain hnil | ⟨ys, y, hcore⟩ := List.eq_nil_or_concat (sigShapes (core u ps))
  · rw [hsplit, hnil, List.append_nil] at hlast
    exact absurd rfl ((hlead _ (List.mem_of_getLast? hlast)).ne (c := ';') (by simp))
  · rw [List.concat_eq_append] at hcore
    rw [hsplit, hcore, ← List.append_assoc, List.getLast?_concat] at hlast
    cases hlast
    exact ⟨_, ys, hlead, by rw [hsplit, hcore], hcore⟩

theorem sigShapes_core_subset (ps : List SqlPiece) : ∀ x ∈ sigShapes (core u ps), x ∈ sigShapes ps := by
  intro x hx
  have hsplit : sigShapes ps = sigShapes (lead u ps) ++ (sigShapes (core u ps) ++ sigShapes (trail u ps)) := by
    rw [← sigShapes_append, ← sigShapes_append, lead_core_trail]
  rw [hsplit]
  exact List.mem_append_right _ (List.mem_append_left _ hx)

end Edges

section Admission

/-- PostgreSQL admits plain statements everywhere, and stored definitions as DDL. -/
theorem admitted_kind (h : Admitted u .postgres st) : st.kind ≠ .plsqlBlock := by
  intro hk
  have hstatement (mode inBatch) (h : admitStatement u .postgres st mode inBatch = none) : False := by
    obtain hsql | hplsql := (admitStatement_none.1 h).kind
    · rw [hk] at hsql
      cases hsql
    · cases hplsql
  have hddl (h : admitDdl u .postgres st = none) : False := (admitDdl_none.1 h).kind hk
  obtain ⟨mode, inBatch, h⟩ | h | ⟨mode, h⟩ := h
  · exact hstatement mode inBatch h
  · exact hddl h
  · unfold admitEntry at h
    split at h
    · exact hstatement _ _ h
    · exact hstatement _ _ h
    · exact hddl h

end Admission

section Submitted

variable (h : Normalizes u s st ps qs rs)

include h

theorem oneStatement_iff : OneStatement u st.text ↔ Single (routines u) (sigShapes (core u rs)) := by
  obtain ⟨htext, hreads⟩ := text_eq h
  have htoks : significantTokens u st.text = .ok (marks (trimLast u (core u rs))) := by
    rw [htext, significantTokens_of hreads]
  rw [← shapes_trimLast (u := u), ← marks_shape]
  constructor
  · rintro ⟨toks, ht, hsingle⟩
    rw [htoks] at ht
    cases ht
    exact hsingle
  · exact fun hsingle => ⟨_, htoks, hsingle⟩

def Apart (u : Unicode) (xs : List Shape) : Prop :=
  ∃ ys, xs = ys ++ [semicolon] ∧ (semicolon ∉ ys ∨ Reads (routines u) (.statement []) ys)

theorem separated_iff : Separated u s ↔ (st.kind = .plsqlDefinition → Apart u (sigShapes qs)) := by
  have htoks : significantTokens u s = .ok (marks ps) := by rw [← h.pieces, significantTokens_of h.reads]
  have hshapes : (withoutTerminators u .plsqlDefinition s (marks ps)).map shape = sigShapes qs := by
    rw [← h.pieces, withoutTerminators_shapes h.unslashed]
    simp
  rw [kind_eq h, ← hshapes]
  constructor
  · rintro ⟨toks, ht, hsingle⟩
    rw [htoks] at ht
    cases ht
    exact hsingle
  · exact fun hsingle => ⟨_, htoks, hsingle⟩

/-- A plain statement keeps no semicolon. -/
theorem plain_single (hk : st.kind = .sql) : Single (routines u) (sigShapes (core u rs)) := by
  obtain ⟨-, -, hone⟩ | ⟨hne, -⟩ := h.ended
  · apply single_of_none
    intro hm
    have hmarks := sigShapes_core_subset rs _ hm
    rw [← marks_shape, List.mem_map] at hmarks
    obtain ⟨t, ht, hx⟩ := hmarks
    have hsemi := hone t ht
    rw [isPunct_iff.2 hx] at hsemi
    cases hsemi
  · exact absurd hk hne

theorem definition_single (hk : st.kind ≠ .sql) :
    Single (routines u) (sigShapes (core u rs)) ↔ Apart u (sigShapes qs) := by
  obtain ⟨hsql, -⟩ | ⟨-, rfl, tok, hlast, hp⟩ := h.ended
  · exact absurd hsql hk
  · have hend : (sigShapes rs).getLast? = some semicolon := by
      rw [← marks_shape, List.getLast?_map, hlast]
      exact congrArg some (isPunct_iff.1 hp)
    obtain ⟨xs, ys, hedges, hx, hcore⟩ := shapes_core_of_semicolon h.reads'' hend
    have hmark : (routines u).mark semicolon = true := by simp [routines]
    have hmem : semicolon ∉ xs := fun hm => (hedges _ hm).ne (c := ';') (by simp) rfl
    rw [hcore, single_iff hmark, mark_eq_false, ← reads_edges hedges, hx]
    constructor
    · rintro hone
      refine ⟨xs ++ ys, by simp, hone.imp_left fun hnone => ?_⟩
      simp [hmem, hnone]
    · rintro ⟨zs, hz, hone⟩
      rw [← List.append_assoc] at hz
      obtain ⟨rfl, -⟩ := List.append_inj' hz rfl
      exact hone.imp_left fun hnone hm => hnone (List.mem_append_right _ hm)

end Submitted

/-- One statement is sent exactly when the text is no stored definition that more follows. -/
theorem admitted_oneStatement_iff (h : normalize u s = .ok st) (hadmitted : Admitted u .postgres st) :
    OneStatement u st.text ↔ Separated u s := by
  obtain ⟨ps, qs, rs, hn⟩ := normalize_ok h
  rw [oneStatement_iff hn, separated_iff hn]
  cases hk : st.kind with
  | sql => simp [plain_single hn hk]
  | plsqlBlock => exact absurd hk (admitted_kind hadmitted)
  | plsqlDefinition =>
      rw [definition_single hn (by rw [hk]; simp)]
      simp

section Example

def quoted : Text := "CREATE FUNCTION f() RETURNS int LANGUAGE sql AS 'SELECT 1; SELECT 2';".toList

def quotedStatement : Statement where
  text := quoted
  kind := .plsqlDefinition
  lead := ["CREATE", "FUNCTION", "F", "RETURNS"]
  names := ["CREATE", "FUNCTION", "F", "RETURNS", "INT", "LANGUAGE", "SQL", "AS"]

theorem admitted_oneStatement_iff_quoted : OneStatement .ascii quotedStatement.text := by
  have hrun : normalize .ascii quoted = .ok quotedStatement := by decide +kernel
  apply (admitted_oneStatement_iff hrun (.inr (.inl (by decide +kernel)))).2
  have htoks : (significantTokens .ascii quoted).toOption.any (fun toks =>
      let xs := (withoutTerminators .ascii .plsqlDefinition quoted toks).map shape
      decide (xs = xs.dropLast ++ [semicolon] ∧ semicolon ∉ xs.dropLast)) = true := by decide +kernel
  cases h : significantTokens .ascii quoted with
  | error e =>
      rw [h] at htoks
      cases htoks
  | ok toks =>
      rw [h] at htoks
      obtain ⟨hlast, hnone⟩ := of_decide_eq_true htoks
      exact ⟨toks, h, fun _ => ⟨_, hlast, .inl hnone⟩⟩

def riding : Text := "CREATE FUNCTION f() RETURNS int LANGUAGE sql AS 'SELECT 1'; DROP TABLE accounts;".toList

def ridingStatement : Statement where
  text := riding
  kind := .plsqlDefinition
  lead := ["CREATE", "FUNCTION", "F", "RETURNS"]
  names := ["CREATE", "FUNCTION", "F", "RETURNS", "INT", "LANGUAGE", "SQL", "AS", "DROP", "TABLE", "ACCOUNTS"]

theorem riding_admitted : normalize .ascii riding = .ok ridingStatement ∧
    admitDdl .ascii .postgres ridingStatement = none ∧ ¬ OneStatement .ascii ridingStatement.text := by
  refine ⟨by decide +kernel, by decide +kernel, ?_⟩
  rintro ⟨toks, htoks, hsingle⟩
  -- the first `;` stands outside any body, and `DROP` follows it
  have hrun : (significantTokens .ascii riding).toOption.any (fun toks =>
      let xs := toks.map shape
      decide (xs = xs.take 11 ++ semicolon :: xs.drop 12 ∧ xs.drop 12 ≠ [] ∧
      level (routines .ascii) (xs.take 11) = 0)) =
      true := by decide +kernel
  have htext : significantTokens .ascii riding = .ok toks := htoks
  rw [htext] at hrun
  obtain ⟨hsplit, hafter, hlevel⟩ := of_decide_eq_true hrun
  obtain hnil | ⟨hpos, -⟩ := hsingle _ _ _ hsplit (by simp [routines])
  · exact hafter hnil
  · omega

def levelOf (s : String) : Option Nat :=
  (significantTokens .ascii s.toList).toOption.map fun toks => level (routines .ascii) (toks.map shape)

-- a column label neither opens nor closes anything
example : levelOf "CREATE FUNCTION f() RETURNS int BEGIN ATOMIC SELECT 1 AS end; SELECT 2 AS case;" = some 1 := by
  decide +kernel

example : levelOf "CREATE FUNCTION f() RETURNS int BEGIN ATOMIC SELECT 1 AS case; END; DROP TABLE t;" = some 0 := by
  decide +kernel

end Example

end Migr8.Submission
