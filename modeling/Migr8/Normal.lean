import Migr8.Pieces

namespace Migr8.Normal

open Characters Lib.Scanning SqlText Scanner Pieces

variable {u : Unicode} {c d : Char} {s t z text : Text} {kind : StatementKind} {n : Nat} {st : Statement}
  {p : SqlPiece} {ps qs : List SqlPiece} {tok : Token} {toks sig : List Token} {e : Failure}

abbrev Shape := TokenKind × Text

def shape (t : Token) : Shape := (t.kind, t.text)

def shapes (ps : List SqlPiece) : List Shape := ps.filterMap fun p => p.kind.map (·, p.text)

/-- What the pieces say, comments and gaps left out. -/
def sigShapes (ps : List SqlPiece) : List Shape := (shapes ps).filter (·.1 ≠ .comment)

def marks (ps : List SqlPiece) : List Token := (locate 0 ps).filter (·.significant)

section Locate

theorem bind_ok {α β : Type} {m : Except Failure α} {f : α → Except Failure β} {b : β} :
    (m >>= f) = .ok b ↔ ∃ a, m = .ok a ∧ f a = .ok b := by
  cases m <;> simp [bind, Except.bind]

theorem locate_append : locate n (ps ++ qs) = locate n ps ++ locate (n + (join ps).length) qs := by
  induction ps generalizing n with
  | nil => rfl
  | cons p ps ih =>
      obtain ⟨kind, text⟩ := p
      cases kind <;> simp [locate, ih, Nat.add_assoc]

theorem locate_shape : (locate n ps).map shape = shapes ps := by
  induction ps generalizing n with
  | nil => rfl
  | cons p ps ih =>
      obtain ⟨kind, text⟩ := p
      cases kind with
      | none => exact ih
      | some kind => exact congrArg ((kind, text) :: ·) ih

theorem filter_shape : (toks.filter (·.significant)).map shape = (toks.map shape).filter (·.1 ≠ .comment) := by
  rw [List.filter_map]
  rfl

theorem marks_shape : (marks ps).map shape = sigShapes ps := by
  rw [marks, filter_shape, locate_shape]
  rfl

theorem sigShapes_append : sigShapes (ps ++ qs) = sigShapes ps ++ sigShapes qs := by
  simp [sigShapes, shapes]

theorem sigShapes_nil_iff : sigShapes ps = [] ↔ ∀ p ∈ ps, insignificant p := by
  simp only [sigShapes, shapes, List.filter_eq_nil_iff, List.mem_filterMap, insignificant]
  constructor
  · intro h p hp
    cases hk : p.kind with
    | none => exact .inl rfl
    | some kind =>
        have hc := h (kind, p.text) ⟨p, hp, by rw [hk]; rfl⟩
        right
        simpa using hc
  · rintro h x ⟨p, hp, hx⟩
    obtain hk | hk := h p hp
    · rw [hk] at hx
      cases hx
    · rw [hk] at hx
      cases hx
      simp

theorem tokenize_ok : tokenize u s = .ok toks ↔ ∃ ps, join ps = s ∧ Reads (next u) [] ps ∧ toks = locate 0 ps := by
  rw [tokenize, map_ok]
  constructor
  · rintro ⟨ps, hps, rfl⟩
    obtain ⟨hj, hr⟩ := scan_ok.1 hps
    exact ⟨ps, hj, hr, rfl⟩
  · rintro ⟨ps, hj, hr, rfl⟩
    exact ⟨ps, scan_ok.2 ⟨hj, hr⟩, rfl⟩

theorem significantTokens_ok :
    significantTokens u s = .ok sig ↔ ∃ ps, join ps = s ∧ Reads (next u) [] ps ∧ sig = marks ps := by
  rw [significantTokens, map_ok]
  constructor
  · rintro ⟨toks, htoks, rfl⟩
    obtain ⟨ps, hj, hr, rfl⟩ := tokenize_ok.1 htoks
    exact ⟨ps, hj, hr, rfl⟩
  · rintro ⟨ps, hj, hr, rfl⟩
    exact ⟨locate 0 ps, tokenize_ok.2 ⟨ps, hj, hr, rfl⟩, rfl⟩

theorem significantTokens_of (h : Reads (next u) [] ps) : significantTokens u (join ps) = .ok (marks ps) :=
  significantTokens_ok.2 ⟨ps, rfl, h, rfl⟩

structure LastMark (ps : List SqlPiece) (tok : Token) (before after : List SqlPiece) : Prop where
  split : ps = before ++ ⟨some tok.kind, tok.text⟩ :: after
  start : tok.start = (join before).length
  stop : tok.stop = tok.start + tok.text.length
  rest : ∀ q ∈ after, insignificant q
  significant : tok.kind ≠ .comment

theorem lastMark (h : (marks ps).getLast? = some tok) : ∃ before after, LastMark ps tok before after := by
  induction ps using List.reverseRecOn with
  | nil => cases h
  | append_singleton ps p ih =>
      obtain ⟨kind, text⟩ := p
      rw [marks, locate_append, List.filter_append] at h
      by_cases hp : insignificant ⟨kind, text⟩
      · have hnone : (locate (0 + (join ps).length) [⟨kind, text⟩]).filter (·.significant) = [] := by
          obtain hk | hk := hp <;> obtain rfl := hk <;> rfl
        rw [hnone, List.append_nil] at h
        obtain ⟨before, after, hl⟩ := ih h
        refine ⟨before, after ++ [⟨kind, text⟩], ?_, hl.start, hl.stop, ?_, hl.significant⟩
        · rw [hl.split]
          simp
        · intro q hq
          obtain hq | hq := List.mem_append.1 hq
          · exact hl.rest q hq
          · rw [List.mem_singleton.1 hq]
            exact hp
      · cases kind with
        | none => exact absurd (Or.inl rfl) hp
        | some kind =>
            have hk : kind ≠ .comment := fun hk => hp (.inr (by rw [hk]))
            have hone : (locate (0 + (join ps).length) [⟨some kind, text⟩]).filter (·.significant) =
                [⟨kind, text, (join ps).length, (join ps).length + text.length⟩] := by
              simp [locate, Token.significant, hk]
            rw [hone, List.getLast?_concat, Option.some.injEq] at h
            subst h
            exact ⟨ps, [], rfl, rfl, rfl, by simp, hk⟩

variable {before after : List SqlPiece}

theorem LastMark.take (h : LastMark ps tok before after) : (join ps).take tok.start = join before := by
  rw [h.split, join_append, h.start, List.take_left]

theorem LastMark.drop (h : LastMark ps tok before after) : (join ps).drop tok.stop = join after := by
  rw [h.split, join_append, join_cons, ← List.append_assoc, h.stop, h.start, ← List.length_append]
  exact List.drop_left

theorem LastMark.cut (h : LastMark ps tok before after) : cut (join ps) tok = join (before ++ after) := by
  rw [SqlText.cut, h.take, h.drop, join_append]

theorem LastMark.shapes (h : LastMark ps tok before after) : sigShapes ps = sigShapes before ++ [shape tok] := by
  have hrest : sigShapes after = [] := sigShapes_nil_iff.2 h.rest
  have hone : sigShapes (⟨some tok.kind, tok.text⟩ :: after) = shape tok :: sigShapes after := by
    simp [sigShapes, Normal.shapes, h.significant, shape]
  rw [h.split, sigShapes_append, hone, hrest]

theorem locate_insignificant (h : ∀ q ∈ ps, insignificant q) : (locate n ps).filter (·.significant) = [] := by
  have hshape : ((locate n ps).filter (·.significant)).map shape = [] := by
    rw [filter_shape, locate_shape]
    exact sigShapes_nil_iff.2 h
  exact List.map_eq_nil_iff.1 hshape

theorem marks_insignificant (h : ∀ q ∈ after, insignificant q) : marks (before ++ after) = marks before := by
  rw [marks, locate_append, List.filter_append, locate_insignificant h, List.append_nil]
  rfl

theorem LastMark.marks_eq (h : LastMark ps tok before after) : marks ps = marks before ++ [tok] := by
  obtain ⟨kind, text, start, stop⟩ := tok
  obtain rfl : start = (join before).length := h.start
  obtain rfl : stop = (join before).length + text.length := h.stop
  have hk : kind ≠ .comment := h.significant
  have hrest := locate_insignificant (n := (join before).length + text.length) h.rest
  simp only [Token.significant, ne_eq] at hrest
  rw [h.split, marks, marks, locate_append, List.filter_append]
  simp only [Nat.zero_add, locate, Token.significant, hk, ne_eq, not_false_eq_true, decide_true, List.filter_cons,
    if_true, hrest]

theorem LastMark.getLast (h : LastMark ps tok before after) : (marks ps).getLast? = some tok := by
  rw [h.marks_eq, List.getLast?_concat]

end Locate

section Removal

variable {before after : List SqlPiece} {x : Char}

theorem isPunct_iff : tok.isPunct c = true ↔ shape tok = (.punct, [c]) := by
  simp [Token.isPunct, shape]

theorem strip_nil : u.strip t = [] ↔ ∀ d ∈ t, u.isSpace d = true := by
  rw [Unicode.strip, List.rdropWhile_eq_nil_iff]
  constructor
  · intro h d hd
    by_contra hs
    have hne : t.dropWhile u.isSpace ≠ [] := by
      intro hnil
      exact hs (List.dropWhile_eq_nil_iff.1 hnil d hd)
    have hhead := List.head_dropWhile_not u.isSpace hne
    rw [h _ (List.head_mem hne)] at hhead
    cases hhead
  · intro h d hd
    exact h d ((List.dropWhile_suffix _).subset hd)

theorem LastMark.reads (hl : LastMark ps tok before after) (hp : tok.isPunct x = true) (hr : Reads (next u) [] ps) :
    Reads (next u) (x :: join after) before ∧ Reads (next u) [] after := by
  obtain ⟨hk, ht⟩ : tok.kind = .punct ∧ tok.text = [x] := by simpa [Token.isPunct] using hp
  rw [hl.split, reads_append, hk, ht] at hr
  exact ⟨by simpa using hr.1, (reads_piece.1 hr.2).2⟩

/-- The text without its last mark reads as before, unless a dash before the mark
meets a comment of dashes after it. -/
theorem LastMark.reads_cut (hl : LastMark ps tok before after) (hx : x ≠ '\n') (hp : tok.isPunct x = true)
    (hr : Reads (next u) [] ps)
    (hne : ¬ (before.getLast? = some ⟨some .punct, ['-']⟩ ∧ (join after).head? = some '-')) :
    Reads (next u) [] (before ++ after) := by
  obtain ⟨hb, ha⟩ := hl.reads hp hr
  have ht := trails_join ha hl.rest
  rw [reads_append, List.append_nil]
  exact ⟨Pieces.reads_cut hx ht hb hne, ha⟩

theorem dash_not_space : u.isSpace '-' = false := not_space_of_mark (by simp)

/-- A slash alone on its line is not next to dashes. -/
theorem LastMark.reads_slash (hl : LastMark ps tok before after) (hp : tok.isPunct '/' = true)
    (hs : standaloneSlash u (join ps) tok = true) (hr : Reads (next u) [] ps) :
    Reads (next u) [] (before ++ after) := by
  refine hl.reads_cut (by decide) hp hr ?_
  rintro ⟨-, hd⟩
  simp only [standaloneSlash, Bool.and_eq_true, decide_eq_true_eq, hl.drop] at hs
  have hspace := strip_nil.1 hs.2
  cases hj : join after with
  | nil => simp [hj] at hd
  | cons d w =>
      rw [hj] at hd hspace
      cases hd
      have hfalse := hspace '-' (by simp)
      rw [dash_not_space] at hfalse
      cases hfalse

theorem someStatement_ok : someStatement sig = .ok () ↔ sig ≠ [] ∧ onlyTerminator sig = false := by
  unfold someStatement
  by_cases h : sig = []
  · simp [h]
  · by_cases ho : onlyTerminator sig = true <;> simp [h, ho]

/-- The text that a final standalone slash leaves. -/
inductive Unslashed (u : Unicode) (ps : List SqlPiece) : List SqlPiece → Prop
  | kept (h : ∀ tok, (marks ps).getLast? = some tok →
      ¬ (tok.isPunct '/' = true ∧ standaloneSlash u (join ps) tok = true)) :
      Unslashed u ps ps
  | removed {tok : Token} {before after : List SqlPiece} (hl : LastMark ps tok before after)
      (hp : tok.isPunct '/' = true) (hs : standaloneSlash u (join ps) tok = true)
      (hsome : someStatement (marks (before ++ after)) = .ok ()) : Unslashed u ps (before ++ after)

theorem Unslashed.reads (h : Unslashed u ps qs) (hr : Reads (next u) [] ps) : Reads (next u) [] qs := by
  cases h with
  | kept => exact hr
  | removed hl hp hs => exact hl.reads_slash hp hs hr

theorem Unslashed.run (h : Unslashed u ps qs) (hr : Reads (next u) [] ps) (hne : marks ps ≠ []) :
    withoutSlash u (join ps) (marks ps) = .ok (join qs, marks qs) := by
  unfold withoutSlash
  cases h with
  | kept h =>
      cases hlast : (marks ps).getLast? with
      | none => exact absurd (List.getLast?_eq_none_iff.1 hlast) hne
      | some tok => exact if_neg (h tok hlast)
  | removed hl hp hs hsome =>
      rw [hl.getLast]
      simp only
      rw [if_pos ⟨hp, hs⟩, hl.cut, significantTokens_of (hl.reads_slash hp hs hr)]
      simp [hsome, bind, Except.bind, pure, Except.pure]

theorem withoutSlash_ok (hr : Reads (next u) [] ps) {r : Text × List Token}
    (h : withoutSlash u (join ps) (marks ps) = .ok r) :
    ∃ qs, Unslashed u ps qs ∧ Reads (next u) [] qs ∧ r = (join qs, marks qs) := by
  unfold withoutSlash at h
  cases hlast : (marks ps).getLast? with
  | none => simp [hlast] at h
  | some tok =>
      simp only [hlast] at h
      by_cases hcond : tok.isPunct '/' = true ∧ standaloneSlash u (join ps) tok = true
      · rw [if_pos hcond] at h
        obtain ⟨before, after, hl⟩ := lastMark hlast
        have hreads := hl.reads_slash hcond.1 hcond.2 hr
        rw [hl.cut, significantTokens_of hreads] at h
        cases hsome : someStatement (marks (before ++ after)) with
        | error e => simp [hsome, bind, Except.bind] at h
        | ok v =>
            simp only [hsome, bind, Except.bind, pure, Except.pure, Except.ok.injEq] at h
            exact ⟨_, .removed hl hcond.1 hcond.2 hsome, hreads, h.symm⟩
      · rw [if_neg hcond] at h
        cases h
        refine ⟨ps, .kept fun tok' htok => ?_, hr, rfl⟩
        rw [hlast] at htok
        cases htok
        exact hcond

theorem classify_of (hr : Reads (next u) [] ps) (hw : words u (marks ps) ≠ []) :
    classify u (join ps) = .ok (kindOf (words u (marks ps))) := by
  unfold classify
  rw [significantTokens_of hr]
  cases hm : marks ps with
  | nil => exact absurd (by rw [hm]; rfl) hw
  | cons token rest =>
      rw [hm] at hw
      exact if_neg hw

theorem classify_error (hr : Reads (next u) [] ps) (hw : words u (marks ps) = []) :
    ∃ message, classify u (join ps) = .error (.syntaxError message) := by
  unfold classify
  rw [significantTokens_of hr]
  cases hm : marks ps with
  | nil => exact ⟨_, rfl⟩
  | cons token rest =>
      rw [hm] at hw
      exact ⟨_, if_pos hw⟩

/-- The text that the terminator of a plain statement leaves. A dash before the
terminator and dashes after it become one comment. -/
inductive Ended (u : Unicode) (ps : List SqlPiece) : List SqlPiece → Prop
  | kept (h : ∀ tok, (marks ps).getLast? = some tok → tok.isPunct ';' = false) : Ended u ps ps
  | removed {tok : Token} {before after : List SqlPiece} (hl : LastMark ps tok before after)
      (hp : tok.isPunct ';' = true)
      (hne : ¬ (before.getLast? = some ⟨some .punct, ['-']⟩ ∧ (join after).head? = some '-')) :
      Ended u ps (before ++ after)
  | glued {tok : Token} {before after : List SqlPiece} {t : Text}
      (hl : LastMark ps tok (before ++ [⟨some .punct, ['-']⟩]) (⟨some .comment, '-' :: t⟩ :: after))
      (hp : tok.isPunct ';' = true) : Ended u ps (before ++ ⟨some .comment, '-' :: '-' :: t⟩ :: after)

theorem words_shape : words u toks =
    ((toks.map shape).filter (·.1 = .word)).map fun x => String.ofList (u.upper x.2) := by
  rw [words, List.filter_map, List.map_map]
  rfl

theorem words_marks : words u (marks ps) =
    ((sigShapes ps).filter (·.1 = .word)).map fun x => String.ofList (u.upper x.2) := by
  rw [words_shape, marks_shape]

theorem mem_sigShapes {x : Shape} : x ∈ sigShapes ps ↔ x.1 ≠ .comment ∧ ⟨some x.1, x.2⟩ ∈ ps := by
  obtain ⟨kind, text⟩ := x
  simp only [sigShapes, shapes, List.mem_filter, List.mem_filterMap, Option.map_eq_some_iff, decide_eq_true_eq]
  constructor
  · rintro ⟨⟨⟨k, t⟩, hp, k', rfl, h⟩, hc⟩
    cases h
    exact ⟨hc, hp⟩
  · rintro ⟨hc, hp⟩
    exact ⟨⟨_, hp, kind, rfl, rfl⟩, hc⟩

/-- A text with a word is more than white space. -/
theorem strip_ne_nil (hr : Reads (next u) z ps) (hw : SqlText.words u (marks ps) ≠ []) : u.strip (join ps) ≠ [] := by
  intro hs
  obtain ⟨w, hw⟩ := List.exists_mem_of_ne_nil _ hw
  rw [words_marks, List.mem_map] at hw
  obtain ⟨⟨kind, text⟩, hx, -⟩ := hw
  obtain ⟨hx, hk⟩ := List.mem_filter.1 hx
  have hp := (mem_sigShapes.1 hx).2
  obtain ⟨kind', c, t, z', he, hl⟩ := reads_lexes hr hp
  cases he
  have hspace := strip_nil.1 hs c (List.mem_flatMap.2 ⟨_, hp, by simp⟩)
  rw [head_not_space hl (by simp) (by simpa using fun h => by simp [h] at hk)] at hspace
  cases hspace

theorem glued_shapes {t : Text}
    (hl : LastMark ps tok (before ++ [⟨some .punct, ['-']⟩]) (⟨some .comment, '-' :: t⟩ :: after))
    (hp : tok.isPunct ';' = true) :
    sigShapes ps = sigShapes (before ++ ⟨some .comment, '-' :: '-' :: t⟩ :: after) ++
    [(.punct, ['-']), (.punct, [';'])] := by
  have hrest : sigShapes (⟨some .comment, '-' :: '-' :: t⟩ :: after) = [] := by
    rw [sigShapes_nil_iff]
    intro q hq
    obtain rfl | hq := List.mem_cons.1 hq
    · exact .inr rfl
    · exact hl.rest q (List.mem_cons_of_mem _ hq)
  have hdash : sigShapes [⟨some .punct, ['-']⟩] = [(.punct, ['-'])] := rfl
  rw [hl.shapes, isPunct_iff.1 hp, sigShapes_append, sigShapes_append, hrest, hdash]
  simp

theorem removed_shapes (hl : LastMark ps tok before after) (hp : tok.isPunct c = true) :
    sigShapes ps = sigShapes (before ++ after) ++ [(.punct, [c])] := by
  have hrest : sigShapes after = [] := sigShapes_nil_iff.2 hl.rest
  rw [hl.shapes, isPunct_iff.1 hp, sigShapes_append, hrest, List.append_nil]

/-- What the terminator takes along. -/
theorem Ended.shapes (h : Ended u ps qs) : sigShapes qs = sigShapes ps ∨
    sigShapes ps = sigShapes qs ++ [(.punct, [';'])] ∨
      sigShapes ps = sigShapes qs ++ [(.punct, ['-']), (.punct, [';'])] := by
  cases h with
  | kept => exact .inl rfl
  | removed hl hp => exact .inr (.inl (removed_shapes hl hp))
  | glued hl hp => exact .inr (.inr (glued_shapes hl hp))

/-- The tokens that the terminator leaves stand where they stood. -/
theorem Ended.marks_eq (h : Ended u ps qs) :
    ∃ tail, marks ps = marks qs ++ tail ∧ ∀ t ∈ tail, t.isPunct ';' = true ∨ t.isPunct '-' = true := by
  cases h with
  | kept => exact ⟨[], by simp, by simp⟩
  | @removed tok before after hl hp =>
      refine ⟨[tok], by rw [hl.marks_eq, marks_insignificant hl.rest], fun t ht => .inl ?_⟩
      rwa [List.mem_singleton.1 ht]
  | @glued tok before after t hl hp =>
      have hdash : marks (before ++ [⟨some .punct, ['-']⟩]) =
          marks before ++ [⟨.punct, ['-'], (join before).length, (join before).length + 1⟩] := by
        simp [marks, locate_append, locate, Token.significant]
      have hrest : ∀ q ∈ ⟨some .comment, '-' :: '-' :: t⟩ :: after, insignificant q := by
        intro q hq
        obtain rfl | hq := List.mem_cons.1 hq
        · exact .inr rfl
        · exact hl.rest q (List.mem_cons_of_mem _ hq)
      refine ⟨[_, tok], by rw [hl.marks_eq, hdash, marks_insignificant hrest, List.append_assoc]; rfl, fun t ht => ?_⟩
      obtain rfl | ht := List.mem_cons.1 ht
      · exact .inr rfl
      · exact .inl (by rwa [List.mem_singleton.1 ht])

theorem Ended.words (h : Ended u ps qs) : SqlText.words u (marks qs) = SqlText.words u (marks ps) := by
  rw [words_marks, words_marks]
  obtain h | h | h := h.shapes <;> rw [h] <;> simp

theorem LastMark.ended (hl : LastMark ps tok before after) (hp : tok.isPunct ';' = true)
    (hr : Reads (next u) [] ps) :
    ∃ qs, Ended u ps qs ∧ Reads (next u) [] qs ∧ join qs = join (before ++ after) := by
  by_cases hne : before.getLast? = some ⟨some .punct, ['-']⟩ ∧ (join after).head? = some '-'
  · obtain ⟨hb, ha⟩ := hl.reads hp hr
    obtain ⟨front, rfl⟩ := List.getLast?_eq_some_iff.1 hne.1
    cases ha with
    | nil => simp at hne
    | @cons kind c t after hstep hs =>
        have hlex := next_iff.1 hstep
        obtain rfl : c = '-' := by simpa using hne.2
        have hk : kind = none ∨ kind = some .comment := hl.rest ⟨kind, '-' :: t⟩ (by simp)
        obtain ⟨rfl, -⟩ | ⟨rfl, -⟩ := hlex.dash
        · exact ⟨_, .glued hl hp, reads_glued hb (reads_piece.2 ⟨hlex, hs⟩), by simp⟩
        · simp at hk
  · exact ⟨_, .removed hl hp hne, hl.reads_cut (by decide) hp hr hne, rfl⟩

theorem Ended.reads (h : Ended u ps qs) (hr : Reads (next u) [] ps) : Reads (next u) [] qs := by
  cases h with
  | kept => exact hr
  | removed hl hp hne => exact hl.reads_cut (by decide) hp hr hne
  | glued hl hp =>
      obtain ⟨hb, ha⟩ := hl.reads hp hr
      exact reads_glued hb ha

theorem Ended.run (h : Ended u ps qs) (hr : Reads (next u) [] ps) (hne : marks ps ≠ [])
    (hone : ∀ t ∈ marks qs, t.isPunct ';' = false) :
    withoutSemicolon u .sql (join ps) (marks ps) = .ok (join qs, marks qs) := by
  have hpass : oneStatement (join qs, marks qs) = .ok (join qs, marks qs) :=
    if_neg (by simpa using hone)
  have hreads := h.reads hr
  unfold withoutSemicolon withoutFinal
  cases h with
  | kept h =>
      cases hlast : (marks ps).getLast? with
      | none => exact absurd (List.getLast?_eq_none_iff.1 hlast) hne
      | some tok =>
          simp only [if_true, h tok hlast, Bool.false_eq_true, if_false]
          exact hpass
  | removed hl hp =>
      rw [hl.getLast]
      simp only [if_true, hp, hl.cut, significantTokens_of hreads]
      exact hpass
  | @glued tok before after t hl hp =>
      have hjoin : join (before ++ [⟨some .punct, ['-']⟩] ++ ⟨some .comment, '-' :: t⟩ :: after) =
          join (before ++ ⟨some .comment, '-' :: '-' :: t⟩ :: after) := by simp
      rw [hl.getLast]
      simp only [if_true, hp, hl.cut, hjoin, significantTokens_of hreads]
      exact hpass

theorem withoutSemicolon_sql (hr : Reads (next u) [] ps) {r : Text × List Token}
    (h : withoutSemicolon u .sql (join ps) (marks ps) = .ok r) :
    ∃ qs, Ended u ps qs ∧ Reads (next u) [] qs ∧ r = (join qs, marks qs) ∧
      ∀ t ∈ marks qs, t.isPunct ';' = false := by
  unfold withoutSemicolon at h
  cases hlast : (marks ps).getLast? with
  | none => simp [hlast] at h
  | some tok =>
      simp only [hlast, if_true] at h
      obtain ⟨r', hfinal, hone⟩ := bind_ok.1 h
      have hr' : r = r' ∧ ∀ t ∈ r'.2, t.isPunct ';' = false := by
        unfold oneStatement at hone
        split at hone
        · cases hone
        · next hany => exact ⟨by cases hone; rfl, by simpa using hany⟩
      obtain ⟨rfl, hno⟩ := hr'
      unfold withoutFinal at hfinal
      by_cases hp : tok.isPunct ';' = true
      · obtain ⟨before, after, hl⟩ := lastMark hlast
        obtain ⟨qs, hend, hreads, hjoin⟩ := hl.ended hp hr
        rw [if_pos hp, hl.cut, ← hjoin, significantTokens_of hreads] at hfinal
        cases hfinal
        exact ⟨qs, hend, hreads, rfl, hno⟩
      · rw [if_neg hp] at hfinal
        cases hfinal
        refine ⟨ps, .kept fun tok' htok => ?_, hr, rfl, hno⟩
        rw [hlast] at htok
        cases htok
        simpa using hp

theorem withoutSemicolon_plsql (hk : kind ≠ .sql) {r : Text × List Token}
    (h : withoutSemicolon u kind (join ps) (marks ps) = .ok r) :
    r = (join ps, marks ps) ∧ ∃ tok, (marks ps).getLast? = some tok ∧ tok.isPunct ';' = true := by
  unfold withoutSemicolon at h
  cases hlast : (marks ps).getLast? with
  | none => simp [hlast] at h
  | some tok =>
      simp only [hlast, if_neg hk] at h
      by_cases hp : tok.isPunct ';' = true
      · rw [if_pos hp] at h
        exact ⟨by cases h; rfl, tok, rfl, hp⟩
      · rw [if_neg hp] at h
        cases h

end Removal

section Assembly

structure Assembles (u : Unicode) (kind : StatementKind) (text : Text) (sig : List Token) (names : List String) :
    Prop where
  slash : ∀ t ∈ sig, ¬ (t.isPunct '/' = true ∧ standaloneSlash u text t = true)
  stripped : u.strip text ≠ []
  named : namesIn u sig = .ok names
  client : ∃ first rest, sig = first :: rest ∧ refuseClient kind first (leadOf u sig) = .ok ()

theorem assemble_ok : assemble u kind text sig = .ok st ↔
    ∃ names, Assembles u kind text sig names ∧ st = build u kind (u.strip text) sig names := by
  unfold assemble
  by_cases hslash : (sig.any fun t => t.isPunct '/' && standaloneSlash u text t) = true
  · rw [if_pos hslash]
    simp only [reduceCtorEq, false_iff, not_exists, not_and]
    rintro names ⟨hno, -⟩
    obtain ⟨t, ht, hs⟩ := List.any_eq_true.1 hslash
    exact absurd (by simpa using hs) (hno t ht)
  by_cases hstrip : u.strip text = []
  · rw [if_neg hslash, if_pos hstrip]
    simp only [reduceCtorEq, false_iff, not_exists, not_and]
    exact fun names h => absurd hstrip h.stripped
  rw [if_neg hslash, if_neg hstrip]
  have hno : ∀ t ∈ sig, ¬ (t.isPunct '/' = true ∧ standaloneSlash u text t = true) := by
    intro t ht hs
    exact hslash (List.any_eq_true.2 ⟨t, ht, by simpa using hs⟩)
  cases hnames : namesIn u sig with
  | error e =>
      simp only [bind, Except.bind, reduceCtorEq, false_iff, not_exists, not_and]
      intro names h
      have hn := h.named
      rw [hnames] at hn
      cases hn
  | ok names =>
      cases sig with
      | nil =>
          simp only [bind, Except.bind, reduceCtorEq, false_iff, not_exists, not_and]
          intro names h
          obtain ⟨first, rest, hsig, -⟩ := h.client
          cases hsig
      | cons first rest =>
          cases hclient : refuseClient kind first (leadOf u (first :: rest)) with
          | error e =>
              simp only [bind, Except.bind, hclient, reduceCtorEq, false_iff, not_exists, not_and]
              intro names h
              obtain ⟨first', rest', hsig, hc⟩ := h.client
              cases hsig
              rw [hclient] at hc
              cases hc
          | ok v =>
              simp only [bind, Except.bind, hclient, pure, Except.pure, Except.ok.injEq]
              constructor
              · rintro rfl
                exact ⟨names, ⟨hno, hstrip, hnames, first, rest, rfl, hclient⟩, rfl⟩
              · rintro ⟨names', h, rfl⟩
                have hn := h.named
                rw [hnames] at hn
                cases hn
                rfl

/-- What a text that `normalize` accepts goes through. -/
structure Normalizes (u : Unicode) (s : Text) (st : Statement) (ps qs rs : List SqlPiece) : Prop where
  nul : '\x00' ∉ s
  pieces : join ps = s
  reads : Reads (next u) [] ps
  statement : someStatement (marks ps) = .ok ()
  unslashed : Unslashed u ps qs
  reads' : Reads (next u) [] qs
  words : words u (marks qs) ≠ []
  kind : st.kind = kindOf (SqlText.words u (marks qs))
  ended : (st.kind = .sql ∧ Ended u qs rs ∧ ∀ t ∈ marks rs, t.isPunct ';' = false) ∨
    (st.kind ≠ .sql ∧ rs = qs ∧ ∃ tok, (marks qs).getLast? = some tok ∧ tok.isPunct ';' = true)
  reads'' : Reads (next u) [] rs
  built : ∃ names, Assembles u st.kind (join rs) (marks rs) names ∧
    st = build u st.kind (u.strip (join rs)) (marks rs) names

theorem normalize_ok (h : normalize u s = .ok st) : ∃ ps qs rs, Normalizes u s st ps qs rs := by
  unfold SqlText.normalize at h
  by_cases hnul : s.contains '\x00' = true
  · rw [if_pos hnul] at h
    cases h
  rw [if_neg hnul] at h
  obtain ⟨sig, hsig, h⟩ := bind_ok.1 h
  obtain ⟨ps, rfl, hr, rfl⟩ := significantTokens_ok.1 hsig
  obtain ⟨v, hsome, h⟩ := bind_ok.1 h
  obtain ⟨r, hslash, h⟩ := bind_ok.1 h
  obtain ⟨qs, hun, hr', rfl⟩ := withoutSlash_ok hr hslash
  obtain ⟨kind, hkind, h⟩ := bind_ok.1 h
  obtain ⟨r', hend, h⟩ := bind_ok.1 h
  obtain ⟨names, hassembles, hst⟩ := assemble_ok.1 h
  have hwords : words u (marks qs) ≠ [] := by
    intro hw
    obtain ⟨message, he⟩ := classify_error hr' hw
    rw [hkind] at he
    cases he
  obtain rfl : kindOf (words u (marks qs)) = kind := by
    rw [classify_of hr' hwords] at hkind
    cases hkind
    rfl
  have hk : st.kind = kindOf (words u (marks qs)) := by rw [hst]; rfl
  by_cases hsql : kindOf (words u (marks qs)) = .sql
  · rw [hsql] at hend hassembles hst hk
    obtain ⟨rs, hended, hreads, rfl, hone⟩ := withoutSemicolon_sql hr' hend
    refine ⟨ps, qs, rs, by simpa using hnul, rfl, hr, hsome, hun, hr', hwords, by rw [hsql, hk],
      .inl ⟨hk, hended, hone⟩, hreads, names, ?_⟩
    rw [hk]
    exact ⟨hassembles, hst⟩
  · obtain ⟨rfl, hlast⟩ := withoutSemicolon_plsql hsql hend
    refine ⟨ps, qs, qs, by simpa using hnul, rfl, hr, hsome, hun, hr', hwords, hk,
      .inr ⟨by rw [hk]; exact hsql, rfl, hlast⟩, hr', names, ?_⟩
    rw [hk]
    exact ⟨hassembles, hst⟩

/-- What the steps of the normalisation come to, put together. -/
theorem normalize_run {names : List String} (hr : Reads (next u) [] ps) (hnul : '\x00' ∉ join ps)
    (hun : Unslashed u ps qs) (hw : words u (marks ps) ≠ []) (hw' : words u (marks qs) ≠ [])
    (hk : kind = kindOf (words u (marks qs)))
    (hsemi : withoutSemicolon u kind (join qs) (marks qs) = .ok (join rs, marks rs))
    (ha : Assembles u kind (join rs) (marks rs) names) :
    normalize u (join ps) = .ok (build u kind (u.strip (join rs)) (marks rs) names) := by
  have hne : marks ps ≠ [] := fun hm => hw (by rw [hm]; rfl)
  have hsome : someStatement (marks ps) = .ok () := by
    rw [someStatement_ok]
    refine ⟨hne, ?_⟩
    cases hm : marks ps with
    | nil => exact absurd hm hne
    | cons t ts =>
        cases ts with
        | cons => rfl
        | nil =>
            have hword : t.kind = .word := by
              by_contra hword
              rw [hm] at hw
              simp [words, hword] at hw
            simp [onlyTerminator, Token.isPunct, hword]
  unfold SqlText.normalize
  rw [if_neg (by simpa using hnul), significantTokens_of hr]
  simp only [bind, Except.bind, hsome, hun.run hr hne, classify_of (hun.reads hr) hw', ← hk, hsemi]
  exact assemble_ok.2 ⟨names, ha, rfl⟩

end Assembly

end Migr8.Normal
