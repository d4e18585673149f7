import Migr8.Congruence

namespace Migr8.Projection

open Characters Lib.Scanning SqlText Scanner Pieces Migr8.Normal Congruence

variable {u : Unicode} {s text : Text} {kind : StatementKind} {st : Statement} {tok tok' : Token} {n k : Nat}
  {p : SqlPiece} {ps qs rs qs' rs' before after before' after' : List SqlPiece} {toks : List Token}

/-- The significant tokens without a final standalone slash and, for a plain
statement, without one final semicolon. -/
def withoutTerminators (u : Unicode) (kind : StatementKind) (s : Text) (toks : List Token) : List Token :=
  let unslashed := if toks.getLast?.any fun t => t.isPunct '/' && standaloneSlash u s t then toks.dropLast else toks
  if kind = .sql ∧ unslashed.getLast?.any (·.isPunct ';') then unslashed.dropLast else unslashed

/-- The tokens whose contents no reader of the statement may see changed. -/
def prose (toks : List Token) : List Shape :=
  (toks.map shape).filter fun x => x.1 = .string || x.1 = .quotedIdent || x.1 = .comment

/-- Nothing is lost but white space at the end of a comment that ends the text. -/
inductive EndTrimmed (u : Unicode) (text : Text) (xs : List Shape) : List Shape → Prop
  | same : EndTrimmed u text xs xs
  | comment {ys : List Shape} {t : Text} (hx : xs = ys ++ [(.comment, t)])
      (hend : t.rdropWhile u.isSpace <:+ text) : EndTrimmed u text xs (ys ++ [(.comment, t.rdropWhile u.isSpace)])

/-- The statement that a text is normalised to holds what the text holds. -/
structure Projects (u : Unicode) (s : Text) (st : Statement) : Prop where
  tokens : ∃ toks toks', significantTokens u s = .ok toks ∧ significantTokens u st.text = .ok toks' ∧
    toks'.map shape = (withoutTerminators u st.kind s toks).map shape
  prose : ∃ toks toks', tokenize u s = .ok toks ∧ tokenize u st.text = .ok toks' ∧
    EndTrimmed u st.text (prose toks) (prose toks')
  again : normalize u st.text = .ok st

/-- What the removal of the terminator leaves when no dash meets dashes over it. -/
inductive Terminated (u : Unicode) (kind : StatementKind) (ps : List SqlPiece) : List SqlPiece → Prop
  | block (hk : kind ≠ .sql) : Terminated u kind ps ps
  | kept (h : ∀ tok, (marks ps).getLast? = some tok → tok.isPunct ';' = false) : Terminated u kind ps ps
  | removed {tok : Token} {before after : List SqlPiece} (hk : kind = .sql) (hl : LastMark ps tok before after)
      (hp : tok.isPunct ';' = true)
      (hne : ¬ (before.getLast? = some ⟨some .punct, ['-']⟩ ∧ (join after).head? = some '-')) :
      Terminated u kind ps (before ++ after)

/-- The white space at either end is of the characters that the scanner steps over. -/
def GapEdges (u : Unicode) (ps : List SqlPiece) : Prop :=
  (∀ p ∈ ps.takeWhile (blank u), p.kind = none) ∧
    ∀ p ∈ (ps.dropWhile (blank u)).rtakeWhile (blank u), p.kind = none

/-- The terminators come off without changing how the rest of the text reads. -/
def Sound (u : Unicode) (s : Text) : Prop := ∃ ps qs rs, join ps = s ∧ Reads (next u) [] ps ∧ Unslashed u ps qs ∧
  Terminated u (kindOf (words u (marks ps))) qs rs ∧ GapEdges u rs

section Unique

theorem LastMark.unique (h : LastMark ps tok before after) (h' : LastMark ps tok' before' after') :
    before = before' ∧ after = after' ∧ tok = tok' := by
  have hno {t : Token} {a : List SqlPiece} (ht : t.kind ≠ .comment) (ha : ∀ q ∈ a, insignificant q) :
      ⟨some t.kind, t.text⟩ ∉ a := by
    intro hm
    obtain h | h := ha _ hm
    · cases h
    · exact ht (by simpa using h)
  have htok : tok = tok' := by
    have hlast := h.getLast
    rw [h'.getLast] at hlast
    exact (Option.some.inj hlast).symm
  subst htok
  have hsplit := h.split.symm.trans h'.split
  obtain ⟨x, rfl, hx⟩ | ⟨x, rfl, hx⟩ := List.append_eq_append_iff.1 hsplit
  · cases x with
    | nil => simpa using hx
    | cons y x =>
        have hm : (⟨some tok.kind, tok.text⟩ : SqlPiece) ∈ after := by
          rw [(List.cons.inj hx).2]
          simp
        exact absurd hm (hno h.significant h.rest)
  · cases x with
    | nil => simpa [eq_comm] using hx
    | cons y x =>
        have hm : (⟨some tok.kind, tok.text⟩ : SqlPiece) ∈ after' := by
          rw [(List.cons.inj hx).2]
          simp
        exact absurd hm (hno h.significant h'.rest)

theorem Unslashed.unique (h : Unslashed u ps qs) (h' : Unslashed u ps qs') : qs = qs' := by
  cases h with
  | kept hk =>
      cases h' with
      | kept => rfl
      | removed hl hp hs => exact absurd ⟨hp, hs⟩ (hk _ hl.getLast)
  | removed hl hp hs =>
      cases h' with
      | kept hk => exact absurd ⟨hp, hs⟩ (hk _ hl.getLast)
      | removed hl' =>
          obtain ⟨rfl, rfl, -⟩ := LastMark.unique hl hl'
          rfl

theorem Terminated.ended_unique (h : Terminated u .sql ps qs) (h' : Ended u ps qs') : qs = qs' := by
  cases h with
  | block hk => exact absurd rfl hk
  | kept hk =>
      cases h' with
      | kept => rfl
      | removed hl hp => simp [hk _ hl.getLast] at hp
      | glued hl hp => simp [hk _ hl.getLast] at hp
  | removed _ hl hp hne =>
      cases h' with
      | kept hk => simp [hk _ hl.getLast] at hp
      | removed hl' =>
          obtain ⟨rfl, rfl, -⟩ := LastMark.unique hl hl'
          rfl
      | glued hl' =>
          obtain ⟨rfl, rfl, -⟩ := LastMark.unique hl hl'
          exact absurd (by simp) hne

end Unique

section Tokens

theorem last_isPunct {c : Char} : toks.getLast?.any (·.isPunct c) = true ↔
    (toks.map shape).getLast? = some (.punct, [c]) := by
  rw [List.getLast?_map]
  cases toks.getLast? with
  | none => simp
  | some t => simp [isPunct_iff]

theorem unslashed_shapes (h : Unslashed u ps qs) :
    (if (marks ps).getLast?.any fun t => t.isPunct '/' && standaloneSlash u (join ps) t then (marks ps).dropLast
      else marks ps).map shape = sigShapes qs := by
  cases h with
  | kept h =>
      rw [if_neg, marks_shape]
      cases hlast : (marks ps).getLast? with
      | none => simp
      | some tok => simpa using h tok hlast
  | @removed tok before after hl hp hs =>
      rw [if_pos (by rw [hl.getLast]; simp [hp, hs]), List.map_dropLast, marks_shape, removed_shapes hl hp,
        List.dropLast_concat]

/-- What the text should come to, by the tokens that the removed slash leaves. -/
theorem withoutTerminators_shapes (h : Unslashed u ps qs) : (withoutTerminators u kind (join ps) (marks ps)).map shape =
    if kind = .sql ∧ (sigShapes qs).getLast? = some (.punct, [';']) then (sigShapes qs).dropLast else sigShapes qs := by
  have hq := unslashed_shapes h
  unfold withoutTerminators
  generalize (if (marks ps).getLast?.any fun t => t.isPunct '/' && standaloneSlash u (join ps) t then
    (marks ps).dropLast else marks ps) = x at hq ⊢
  simp only [last_isPunct, hq]
  split
  · rw [List.map_dropLast, hq]
  · exact hq

theorem shapes_trimLast : sigShapes (trimLast u ps) = sigShapes ps := by
  induction ps using trimLast.induct with
  | case1 => rfl
  | case2 p =>
      simp only [trimLast, trim]
      split
      · next hk => simp [sigShapes, shapes, hk]
      · rfl
  | case3 p q ps ih =>
      have hp : p :: q :: ps = [p] ++ (q :: ps) := rfl
      have hp' : p :: trimLast u (q :: ps) = [p] ++ trimLast u (q :: ps) := rfl
      rw [trimLast, hp, hp', sigShapes_append, sigShapes_append, ih]

def lead (u : Unicode) (ps : List SqlPiece) : List SqlPiece := ps.takeWhile (blank u)

def trail (u : Unicode) (ps : List SqlPiece) : List SqlPiece := (ps.dropWhile (blank u)).rtakeWhile (blank u)

theorem lead_core_trail : lead u ps ++ (core u ps ++ trail u ps) = ps := by
  have hright : core u ps ++ trail u ps = ps.dropWhile (blank u) := List.rdropWhile_append_rtakeWhile
  rw [hright]
  exact List.takeWhile_append_dropWhile

theorem mem_lead (hp : p ∈ lead u ps) : p ∈ ps ∧ blank u p = true :=
  ⟨(List.takeWhile_sublist _).subset hp, List.mem_takeWhile_imp hp⟩

theorem mem_trail (hp : p ∈ trail u ps) : p ∈ ps ∧ blank u p = true :=
  ⟨(List.dropWhile_suffix _).subset ((List.rtakeWhile_suffix _ _).subset hp), List.mem_rtakeWhile_imp hp⟩

theorem blank_kind (hr : Reads (next u) [] ps) (hp : p ∈ ps) (hb : blank u p = true) :
    p.kind = none ↔ insignificant p := by
  obtain ⟨kind, c, t, z, rfl, hl⟩ := reads_lexes hr hp
  constructor
  · exact Or.inl
  · rintro (h | rfl)
    · exact h
    · have hs := (blank_iff hl).1 hb
      rw [head_not_space hl (by simp) (by simp)] at hs
      cases hs

theorem gapEdges_iff (hr : Reads (next u) [] ps) : GapEdges u ps ↔ sigShapes (core u ps) = sigShapes ps := by
  have hlead : (∀ p ∈ lead u ps, p.kind = none) ↔ sigShapes (lead u ps) = [] := by
    rw [sigShapes_nil_iff]
    exact forall₂_congr fun q hq => blank_kind hr (mem_lead hq).1 (mem_lead hq).2
  have htrail : (∀ p ∈ trail u ps, p.kind = none) ↔ sigShapes (trail u ps) = [] := by
    rw [sigShapes_nil_iff]
    exact forall₂_congr fun q hq => blank_kind hr (mem_trail hq).1 (mem_trail hq).2
  have hsplit : sigShapes ps = sigShapes (lead u ps) ++ (sigShapes (core u ps) ++ sigShapes (trail u ps)) := by
    rw [← sigShapes_append, ← sigShapes_append, lead_core_trail]
  change (∀ p ∈ lead u ps, p.kind = none) ∧ (∀ p ∈ trail u ps, p.kind = none) ↔ _
  rw [hlead, htrail, hsplit]
  constructor
  · rintro ⟨h1, h2⟩
    rw [h1, h2, List.nil_append, List.append_nil]
  · intro h
    have hlen := congrArg List.length h
    simp only [List.length_append] at hlen
    exact ⟨List.eq_nil_of_length_eq_zero (by omega), List.eq_nil_of_length_eq_zero (by omega)⟩

end Tokens

section Prose

def isProse (x : Shape) : Bool := x.1 = .string || x.1 = .quotedIdent || x.1 = .comment

theorem prose_locate : prose (locate n ps) = (shapes ps).filter isProse := by
  rw [prose, locate_shape]
  rfl

theorem shapes_append : shapes (ps ++ qs) = shapes ps ++ shapes qs := by simp [shapes]

theorem LastMark.prose {c : Char} (h : LastMark ps tok before after) (hp : tok.isPunct c = true) :
    (shapes (before ++ after)).filter isProse = (shapes ps).filter isProse := by
  obtain ⟨hk, -⟩ : tok.kind = .punct ∧ tok.text = [c] := by simpa [Token.isPunct] using hp
  rw [h.split, shapes_append, shapes_append, List.filter_append, List.filter_append]
  simp [shapes, hk, isProse]

theorem Unslashed.prose (h : Unslashed u ps qs) : (shapes qs).filter isProse = (shapes ps).filter isProse := by
  cases h with
  | kept => rfl
  | removed hl hp => exact LastMark.prose hl hp

theorem Terminated.prose (h : Terminated u kind ps qs) : (shapes qs).filter isProse = (shapes ps).filter isProse := by
  cases h with
  | block => rfl
  | kept => rfl
  | removed _ hl hp => exact LastMark.prose hl hp

theorem shapes_gaps (h : ∀ p ∈ ps, p.kind = none) : shapes ps = [] := by
  rw [shapes, List.filterMap_eq_nil_iff]
  intro p hp
  rw [h p hp]
  rfl

theorem shapes_core (h : GapEdges u ps) : shapes (core u ps) = shapes ps := by
  have hsplit : shapes ps = shapes (lead u ps) ++ (shapes (core u ps) ++ shapes (trail u ps)) := by
    rw [← shapes_append, ← shapes_append, lead_core_trail]
  have hlead : shapes (lead u ps) = [] := shapes_gaps h.1
  have htrail : shapes (trail u ps) = [] := shapes_gaps h.2
  rw [hsplit, hlead, htrail, List.nil_append, List.append_nil]

/-- Trimming touches the last piece only, and only a comment. -/
theorem trimLast_cases (ps : List SqlPiece) : trimLast u ps = ps ∨
    ∃ qs t, ps = qs ++ [⟨some .comment, t⟩] ∧ trimLast u ps = qs ++ [⟨some .comment, t.rdropWhile u.isSpace⟩] := by
  induction ps using List.reverseRecOn with
  | nil => exact .inl rfl
  | append_singleton ps p ih =>
      obtain ⟨kind, t⟩ := p
      by_cases hk : kind = some .comment
      · subst hk
        exact .inr ⟨ps, t, rfl, trimLast_concat⟩
      · left
        rw [trimLast_concat, trim, if_neg hk]

theorem endTrimmed_trimLast :
    EndTrimmed u (join (trimLast u ps)) ((shapes ps).filter isProse) ((shapes (trimLast u ps)).filter isProse) := by
  obtain h | ⟨qs, t, hps, h⟩ := trimLast_cases (u := u) ps
  · rw [h]
    exact .same
  · rw [h, hps, shapes_append, shapes_append, List.filter_append, List.filter_append]
    refine .comment rfl ?_
    rw [join_append]
    exact ⟨join qs, by simp⟩

end Prose

section Again

def shift (n : Nat) (t : Token) : Token := { t with start := n + t.start, stop := n + t.stop }

theorem locate_shift : locate (n + k) ps = (locate k ps).map (shift n) := by
  induction ps generalizing k with
  | nil => rfl
  | cons p ps ih =>
      obtain ⟨kind, text⟩ := p
      cases kind with
      | none => simpa [locate, Nat.add_assoc] using ih
      | some kind => simpa [locate, Nat.add_assoc, shift] using ih

theorem filter_shift : (toks.map (shift n)).filter (·.significant) = (toks.filter (·.significant)).map (shift n) := by
  rw [List.filter_map]
  rfl

theorem marks_trimLast : marks (trimLast u ps) = marks ps := by
  obtain h | ⟨qs, t, hps, h⟩ := trimLast_cases (u := u) ps
  · rw [h]
  · rw [h, hps]
    simp [marks, locate_append, locate, Token.significant]

/-- What is read between the edges stands further on in the whole text. -/
theorem marks_core (ht : tok ∈ marks (trimLast u (core u ps))) :
    shift (join (lead u ps)).length tok ∈ marks ps := by
  rw [marks_trimLast] at ht
  have hmem : shift (join (lead u ps)).length tok ∈ (locate (0 + (join (lead u ps)).length) (core u ps)).filter
      (·.significant) := by
    rw [Nat.zero_add, show (join (lead u ps)).length = (join (lead u ps)).length + 0 from rfl, locate_shift,
      filter_shift]
    exact List.mem_map_of_mem ht
  have hsplit : marks ps = marks (lead u ps ++ (core u ps ++ trail u ps)) := by rw [lead_core_trail]
  rw [hsplit, marks, locate_append, locate_append, List.filter_append, List.filter_append]
  exact List.mem_append_right _ (List.mem_append_left _ hmem)

theorem join_blank (h : ∀ p ∈ ps, blank u p = true) : ∀ d ∈ join ps, u.isSpace d = true := by
  intro d hd
  obtain ⟨p, hp, hd⟩ := List.mem_flatMap.1 hd
  exact List.all_eq_true.1 (h p hp) d hd

/-- The text is what `strip` leaves of it, between white space. -/
theorem join_split (ps : List SqlPiece) : ∃ w, join ps = join (lead u ps) ++ (join (trimLast u (core u ps)) ++ w) ∧
    ∀ d ∈ w, u.isSpace d = true := by
  have htrail : ∀ d ∈ join (trail u ps), u.isSpace d = true := join_blank fun p hp => (mem_trail hp).2
  have hsplit : join ps = join (lead u ps) ++ (join (core u ps) ++ join (trail u ps)) := by
    rw [← join_append, ← join_append, lead_core_trail]
  obtain h | ⟨qs, t, hps, h⟩ := trimLast_cases (u := u) (core u ps)
  · exact ⟨_, by rw [hsplit, h], htrail⟩
  · refine ⟨t.rtakeWhile u.isSpace ++ join (trail u ps), ?_, ?_⟩
    · have ht : t = t.rdropWhile u.isSpace ++ t.rtakeWhile u.isSpace := List.rdropWhile_append_rtakeWhile.symm
      rw [hsplit, h, hps, join_append, join_append, join_cons, join_cons, join_nil, List.append_nil, List.append_nil,
        List.append_assoc, List.append_assoc, ← List.append_assoc (List.rdropWhile u.isSpace t), ← ht]
    · intro d hd
      obtain hd | hd := List.mem_append.1 hd
      · exact List.mem_rtakeWhile_imp hd
      · exact htrail d hd

theorem mem_takeWhile_append {f : Char → Bool} {a b : Text} {d : Char} (h : d ∈ (a ++ b).takeWhile f) :
    d ∈ a.takeWhile f ∨ d ∈ b := by
  rw [List.takeWhile_append] at h
  split at h
  · next hlen =>
      have hall : a.takeWhile f = a := (List.takeWhile_prefix f).eq_of_length hlen
      rw [hall]
      exact (List.mem_append.1 h).imp id fun h => (List.takeWhile_sublist _).subset h
  · exact .inl h

theorem mem_rtakeWhile_append {f : Char → Bool} {a b : Text} {d : Char} (h : d ∈ (a ++ b).rtakeWhile f) :
    d ∈ a ∨ d ∈ b.rtakeWhile f := by
  unfold List.rtakeWhile at h ⊢
  rw [List.reverse_append, List.mem_reverse] at h
  obtain h | h := mem_takeWhile_append h
  · exact .inr (List.mem_reverse.2 h)
  · exact .inl (List.mem_reverse.1 h)

theorem locate_bounds (h : tok ∈ locate n ps) : tok.start ≤ n + (join ps).length ∧ tok.stop ≤ n + (join ps).length := by
  induction ps generalizing n with
  | nil => simp [locate] at h
  | cons p ps ih =>
      obtain ⟨kind, text⟩ := p
      have hlen : (join (⟨kind, text⟩ :: ps)).length = text.length + (join ps).length := by simp
      have hrest (h : tok ∈ locate (n + text.length) ps) :
          tok.start ≤ n + (join (⟨kind, text⟩ :: ps)).length ∧ tok.stop ≤ n + (join (⟨kind, text⟩ :: ps)).length := by
        obtain ⟨h1, h2⟩ := ih h
        omega
      cases kind with
      | none => exact hrest h
      | some kind =>
          obtain rfl | h := List.mem_cons.1 h
          · rw [hlen]
            constructor <;> simp only <;> omega
          · exact hrest h

/-- A slash alone on its line stays so between white space. -/
theorem standaloneSlash_shift {a b w : Text} (ha : ∀ d ∈ a, u.isSpace d = true) (hw : ∀ d ∈ w, u.isSpace d = true)
    (hstop : tok.stop ≤ b.length) (hstart : tok.start ≤ b.length) (h : standaloneSlash u b tok = true) :
    standaloneSlash u (a ++ (b ++ w)) (shift a.length tok) = true := by
  simp only [standaloneSlash, Bool.and_eq_true, decide_eq_true_eq, strip_nil, shift] at h ⊢
  constructor
  · rw [List.take_length_add_append, List.take_append_of_le_length hstart]
    intro d hd
    obtain hd | hd := mem_rtakeWhile_append hd
    · exact ha d hd
    · exact h.1 d hd
  · rw [List.drop_length_add_append, List.drop_append_of_le_length hstop]
    intro d hd
    obtain hd | hd := mem_takeWhile_append hd
    · exact h.2 d hd
    · exact hw d hd

theorem no_slash (h : ∀ t ∈ marks ps, ¬ (t.isPunct '/' = true ∧ standaloneSlash u (join ps) t = true)) :
    ∀ t ∈ marks (trimLast u (core u ps)),
      ¬ (t.isPunct '/' = true ∧ standaloneSlash u (join (trimLast u (core u ps))) t = true) := by
  rintro t ht ⟨hp, hs⟩
  obtain ⟨w, hjoin, hw⟩ := join_split (u := u) ps
  obtain ⟨hstart, hstop⟩ := locate_bounds (List.mem_filter.1 ht).1
  rw [Nat.zero_add] at hstart hstop
  refine h _ (marks_core ht) ⟨hp, ?_⟩
  rw [hjoin]
  exact standaloneSlash_shift (join_blank fun p hp => (mem_lead hp).2) hw hstop hstart hs

/-- A text that nothing is left to remove from is its own statement. -/
theorem normalize_of {names : List String} (hr : Reads (next u) [] ps) (hnul : '\x00' ∉ join ps)
    (hw : words u (marks ps) ≠ []) (hk : kind = kindOf (words u (marks ps)))
    (hend : (kind = .sql ∧ ∀ t ∈ marks ps, t.isPunct ';' = false) ∨
      (kind ≠ .sql ∧ (marks ps).getLast?.any (·.isPunct ';') = true))
    (ha : Assembles u kind (join ps) (marks ps) names) :
    normalize u (join ps) = .ok (build u kind (u.strip (join ps)) (marks ps) names) := by
  have hne : marks ps ≠ [] := fun hm => hw (by rw [hm]; rfl)
  have hun : Unslashed u ps ps := by
    refine .kept fun tok hlast => ?_
    exact ha.slash tok (List.mem_of_getLast? hlast)
  have hsemi : withoutSemicolon u kind (join ps) (marks ps) = .ok (join ps, marks ps) := by
    obtain ⟨rfl, hone⟩ | ⟨hk', hlast⟩ := hend
    · have hended : Ended u ps ps := .kept fun tok hlast => hone tok (List.mem_of_getLast? hlast)
      exact hended.run hr hne hone
    · unfold withoutSemicolon
      cases hl : (marks ps).getLast? with
      | none => simp [hl] at hlast
      | some tok =>
          have hp : tok.isPunct ';' = true := by simpa [hl] using hlast
          simp only [if_neg hk', if_pos hp]
  exact normalize_run hr hnul hun hw hw hk hsemi ha

end Again

section Projection

theorem dropWhile_head {f : Char → Bool} (h : ∀ d ∈ text.head?, f d = false) : text.dropWhile f = text := by
  cases text with
  | nil => rfl
  | cons d x => rw [List.dropWhile_cons_of_neg (by simp [h d rfl])]

theorem head_dropWhile (f : Char → Bool) (text : Text) : ∀ d ∈ (text.dropWhile f).head?, f d = false := by
  intro d hd
  have hnot := List.head?_dropWhile_not f text
  rw [Option.mem_def] at hd
  rw [hd] at hnot
  exact hnot

theorem strip_idem (t : Text) : u.strip (u.strip t) = u.strip t := by
  have hdrop : ((t.dropWhile u.isSpace).rdropWhile u.isSpace).dropWhile u.isSpace =
      (t.dropWhile u.isSpace).rdropWhile u.isSpace := by
    apply dropWhile_head
    intro d hd
    obtain ⟨w, hw⟩ := List.rdropWhile_prefix u.isSpace (t.dropWhile u.isSpace)
    apply head_dropWhile u.isSpace t d
    rw [← hw, List.head?_append, Option.mem_def.1 hd]
    rfl
  unfold Unicode.strip
  rw [hdrop, List.rdropWhile_idempotent]

theorem Terminated.shapes (h : Terminated u kind ps qs) :
    sigShapes qs = sigShapes ps ∨ sigShapes ps = sigShapes qs ++ [(.punct, [';'])] := by
  cases h with
  | block => exact .inl rfl
  | kept => exact .inl rfl
  | removed _ hl hp => exact .inr (removed_shapes hl hp)

theorem sigShapes_core_le (ps : List SqlPiece) : (sigShapes (core u ps)).length ≤ (sigShapes ps).length := by
  have hsplit : sigShapes ps = sigShapes (lead u ps) ++ (sigShapes (core u ps) ++ sigShapes (trail u ps)) := by
    rw [← sigShapes_append, ← sigShapes_append, lead_core_trail]
  rw [hsplit, List.length_append, List.length_append]
  omega

theorem not_last_semicolon (h : ∀ tok, (marks ps).getLast? = some tok → tok.isPunct ';' = false) :
    (sigShapes ps).getLast? ≠ some (.punct, [';']) := by
  rw [← marks_shape, ne_eq, ← last_isPunct]
  cases hlast : (marks ps).getLast? with
  | none => simp
  | some tok => simp [h tok hlast]

theorem Unslashed.words (h : Unslashed u ps qs) : words u (marks qs) = words u (marks ps) := by
  rw [words_marks, words_marks]
  cases h with
  | kept => rfl
  | @removed tok before after hl hp =>
      rw [removed_shapes hl hp]
      simp

variable (h : Normalizes u s st ps qs rs)

include h

theorem kind_eq : st.kind = kindOf (words u (marks ps)) := by
  rw [h.kind, Unslashed.words h.unslashed]

theorem text_eq : st.text = join (trimLast u (core u rs)) ∧ Reads (next u) [] (trimLast u (core u rs)) := by
  obtain ⟨names, -, hst⟩ := h.built
  obtain ⟨hstrip, hreads⟩ := strip_join h.reads''
  refine ⟨?_, hreads⟩
  rw [hst, ← hstrip]
  rfl

/-- The tokens of the statement are those of the text exactly when the removal is sound. -/
theorem tokens_iff : (∃ toks toks', significantTokens u s = .ok toks ∧ significantTokens u st.text = .ok toks' ∧
    toks'.map shape = (withoutTerminators u st.kind s toks).map shape) ↔
      Terminated u st.kind qs rs ∧ GapEdges u rs := by
  obtain ⟨htext, hreads⟩ := text_eq h
  have hs : significantTokens u s = .ok (marks ps) := by rw [← h.pieces, significantTokens_of h.reads]
  have ht : significantTokens u st.text = .ok (marks (trimLast u (core u rs))) := by
    rw [htext, significantTokens_of hreads]
  have hiff : (∃ toks toks', significantTokens u s = .ok toks ∧ significantTokens u st.text = .ok toks' ∧
      toks'.map shape = (withoutTerminators u st.kind s toks).map shape) ↔ sigShapes (core u rs) =
        if st.kind = .sql ∧ (sigShapes qs).getLast? = some (.punct, [';']) then (sigShapes qs).dropLast
        else sigShapes qs := by
    rw [← withoutTerminators_shapes h.unslashed, h.pieces, ← shapes_trimLast (u := u), ← marks_shape]
    constructor
    · rintro ⟨toks, toks', h1, h2, h3⟩
      rw [hs] at h1
      rw [ht] at h2
      cases h1
      cases h2
      exact h3
    · exact fun h3 => ⟨_, _, hs, ht, h3⟩
  rw [hiff, gapEdges_iff h.reads'']
  obtain ⟨hsql, hended, -⟩ | ⟨hk, rfl, -⟩ := h.ended
  · cases hended with
    | kept hlast =>
        rw [if_neg fun hc => not_last_semicolon hlast hc.2]
        exact (and_iff_right (.kept hlast)).symm
    | @removed tok before after hl hp hne =>
        rw [removed_shapes hl hp, if_pos ⟨hsql, List.getLast?_concat⟩, List.dropLast_concat]
        exact (and_iff_right (.removed hsql hl hp hne)).symm
    | @glued tok before after t hl hp =>
        have hthree := glued_shapes hl hp
        have hle := sigShapes_core_le (u := u) (before ++ ⟨some .comment, '-' :: '-' :: t⟩ :: after)
        generalize before ++ ⟨some .comment, '-' :: '-' :: t⟩ :: after = rs at *
        constructor
        · intro hx
          exfalso
          rw [hthree, if_pos ⟨hsql, by simp⟩] at hx
          have hlen := congrArg List.length hx
          simp at hlen
          omega
        · rintro ⟨hterm, -⟩
          exfalso
          obtain hx | hx := Terminated.shapes hterm
          · have hlen := congrArg List.length (hx.trans hthree)
            simp at hlen
          · rw [hthree] at hx
            have hlen := congrArg List.length hx
            simp at hlen
  · rw [if_neg fun hc => hk hc.1]
    exact (and_iff_right (.block hk)).symm

omit h in
theorem LastMark.mem {d : Char} (hl : LastMark ps tok before after) (hd : d ∈ join (before ++ after)) :
    d ∈ join ps := by
  rw [join_append] at hd
  rw [hl.split, join_append, join_cons]
  obtain hd | hd := List.mem_append.1 hd
  · exact List.mem_append_left _ hd
  · exact List.mem_append_right _ (List.mem_append_right _ hd)

theorem not_nul (ht : Terminated u st.kind qs rs) : '\x00' ∉ join (trimLast u (core u rs)) := by
  intro hn
  obtain ⟨w, hjoin, -⟩ := join_split (u := u) rs
  have hrs : '\x00' ∈ join rs := by
    rw [hjoin]
    exact List.mem_append_right _ (List.mem_append_left _ hn)
  have hqs : '\x00' ∈ join qs := by
    cases ht with
    | block => exact hrs
    | kept => exact hrs
    | removed _ hl => exact LastMark.mem hl hrs
  have hps : '\x00' ∈ join ps := by
    cases h.unslashed with
    | kept => exact hqs
    | removed hl => exact LastMark.mem hl hqs
  rw [h.pieces] at hps
  exact h.nul hps

/-- A sound removal leaves a text that is its own statement. -/
theorem again_of (ht : Terminated u st.kind qs rs) (he : GapEdges u rs) : normalize u st.text = .ok st := by
  obtain ⟨htext, hreads⟩ := text_eq h
  obtain ⟨names, ha, hst⟩ := h.built
  have hshapes : (marks (trimLast u (core u rs))).map shape = (marks rs).map shape := by
    rw [marks_shape, marks_shape, shapes_trimLast, (gapEdges_iff h.reads'').1 he]
  have hsame := forall₂_of_shapes hshapes
  have halike := forall₂_alike hshapes
  have hwords : words u (marks (trimLast u (core u rs))) = words u (marks rs) := words_congr halike
  have hwords' : words u (marks rs) = words u (marks qs) := by
    rw [words_marks, words_marks]
    obtain hx | hx := Terminated.shapes ht <;> rw [hx]
    simp
  have hlead : leadOf u (marks (trimLast u (core u rs))) = leadOf u (marks rs) := leadOf_congr halike
  have hstrip : u.strip (join (trimLast u (core u rs))) = u.strip (join rs) := by
    rw [← (strip_join h.reads'').1, strip_idem]
  have hassembles : Assembles u st.kind (join (trimLast u (core u rs))) (marks (trimLast u (core u rs))) names := by
    refine ⟨no_slash ha.slash, by rw [hstrip]; exact ha.stripped, by rw [namesIn_congr hsame]; exact ha.named, ?_⟩
    obtain ⟨first, rest, hm, hclient⟩ := ha.client
    rw [hm] at hsame
    cases hx : marks (trimLast u (core u rs)) with
    | nil =>
        rw [hx] at hsame
        cases hsame
    | cons first' rest' =>
        rw [hx] at hsame hlead
        obtain ⟨hfirst, -⟩ := List.forall₂_cons.1 hsame
        refine ⟨first', rest', rfl, ?_⟩
        rw [hlead, ← hclient, hm, refuseClient, refuseClient, (alike_of_shape hfirst).isPunct]
  have hend : (st.kind = .sql ∧ ∀ t ∈ marks (trimLast u (core u rs)), t.isPunct ';' = false) ∨
      (st.kind ≠ .sql ∧ (marks (trimLast u (core u rs))).getLast?.any (·.isPunct ';') = true) := by
    obtain ⟨hsql, -, hone⟩ | ⟨hk, rfl, tok, hlast, hp⟩ := h.ended
    · refine .inl ⟨hsql, fun t htm => ?_⟩
      have hm := List.mem_map_of_mem (f := shape) htm
      rw [hshapes, List.mem_map] at hm
      obtain ⟨t', ht', hx⟩ := hm
      rw [← (alike_of_shape hx).isPunct]
      exact hone t' ht'
    · refine .inr ⟨hk, ?_⟩
      rw [last_isPunct, hshapes, ← last_isPunct, hlast]
      exact hp
  have hrun := normalize_of hreads (not_nul h ht) (by rw [hwords, hwords']; exact h.words)
    (by rw [h.kind, hwords, hwords']) hend hassembles
  rw [htext, hrun, hstrip, build_congr hsame]
  exact congrArg Except.ok hst.symm

theorem prose_of (ht : Terminated u st.kind qs rs) (he : GapEdges u rs) :
    ∃ toks toks', tokenize u s = .ok toks ∧ tokenize u st.text = .ok toks' ∧
      EndTrimmed u st.text (prose toks) (prose toks') := by
  obtain ⟨htext, hreads⟩ := text_eq h
  refine ⟨_, _, tokenize_ok.2 ⟨ps, h.pieces, h.reads, rfl⟩, tokenize_ok.2 ⟨_, htext.symm, hreads, rfl⟩, ?_⟩
  rw [prose_locate, prose_locate, htext, ← Unslashed.prose h.unslashed, ← Terminated.prose ht, ← shapes_core he]
  exact endTrimmed_trimLast

end Projection

theorem projects_iff (h : normalize u s = .ok st) : Projects u s st ↔ Sound u s := by
  obtain ⟨ps, qs, rs, hn⟩ := normalize_ok h
  constructor
  · intro hp
    obtain ⟨ht, he⟩ := (tokens_iff hn).1 hp.tokens
    rw [kind_eq hn] at ht
    exact ⟨ps, qs, rs, hn.pieces, hn.reads, hn.unslashed, ht, he⟩
  · rintro ⟨ps', qs', rs', hjoin, hreads, hun, ht, he⟩
    obtain rfl : ps = ps' := by
      have hscan := scan_ok.2 ⟨hn.pieces, hn.reads⟩
      rw [scan_ok.2 ⟨hjoin, hreads⟩] at hscan
      exact (Except.ok.inj hscan).symm
    obtain rfl := Unslashed.unique hn.unslashed hun
    rw [← kind_eq hn] at ht
    obtain rfl : rs' = rs := by
      obtain ⟨hsql, hended, -⟩ | ⟨hk, rfl, -⟩ := hn.ended
      · rw [hsql] at ht
        exact Terminated.ended_unique ht hended
      · cases ht with
        | block => rfl
        | kept => rfl
        | removed hsql => exact absurd hsql hk
    exact ⟨(tokens_iff hn).2 ⟨ht, he⟩, prose_of hn ht he, again_of hn ht he⟩

section Example

def plainSelect : Text := "SELECT 1;".toList

def plainStatement : Statement where
  text := "SELECT 1".toList
  kind := .sql
  lead := ["SELECT"]
  names := ["SELECT"]

def selectPieces : List SqlPiece := [⟨some .word, "SELECT".toList⟩, ⟨none, [' ']⟩, ⟨some .number, ['1']⟩]

theorem projects_iff_plainSelect : Projects .ascii plainSelect plainStatement := by
  have hscan : scan (next .ascii) plainSelect = .ok (selectPieces ++ [⟨some .punct, [';']⟩]) := by decide +kernel
  obtain ⟨hjoin, hreads⟩ := scan_ok.1 hscan
  have hkind : kindOf (words .ascii (marks (selectPieces ++ [⟨some .punct, [';']⟩]))) = .sql := by decide +kernel
  have hlast : LastMark (selectPieces ++ [⟨some .punct, [';']⟩]) ⟨.punct, [';'], 8, 9⟩ selectPieces [] :=
    ⟨rfl, by decide +kernel, by decide, by simp, by decide⟩
  refine (projects_iff (by decide +kernel)).2 ⟨_, _, selectPieces ++ [], hjoin, hreads, .kept ?_,
    .removed hkind hlast rfl ?_, ?_⟩
  · intro tok htok
    rw [hlast.getLast] at htok
    cases htok
    decide
  · simp [selectPieces]
  · exact ⟨by decide +kernel, by decide +kernel⟩

def dashed : Text := "SELECT 1 -;--c".toList

def dashedStatement : Statement := { plainStatement with text := "SELECT 1 ---c".toList }

theorem dashed_unprojected : normalize .ascii dashed = .ok dashedStatement ∧
    ¬ Projects .ascii dashed dashedStatement := by
  refine ⟨by decide +kernel, fun hp => ?_⟩
  obtain ⟨toks, toks', h, h', hx⟩ := hp.tokens
  have hne : (significantTokens .ascii dashedStatement.text).map (·.map shape) ≠
      (significantTokens .ascii dashed).map fun t => (withoutTerminators .ascii .sql dashed t).map shape := by
    decide +kernel
  rw [h, h'] at hne
  exact hne (congrArg Except.ok hx)

end Example

end Migr8.Projection
