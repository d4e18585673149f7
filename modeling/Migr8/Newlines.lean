import Migr8.Prose

namespace Migr8.Newlines

open Characters Lib.Scanning SqlText Scanner Pieces Migr8.Normal Projection

variable {u : Unicode} {c d x y : Char} {s t z : Text} {kind : Option TokenKind} {st : Statement} {p : SqlPiece}
  {ps qs rs : List SqlPiece} {toks : List Token}

/-- Python's text mode reads every line end as a line feed. -/
def universalNewlines : Text → Text
  | '\r' :: '\n' :: cs => '\n' :: universalNewlines cs
  | '\r' :: cs => '\n' :: universalNewlines cs
  | c :: cs => c :: universalNewlines cs
  | [] => []

def decoded (bytes : List UInt8) : Option Text := (String.fromUTF8? ⟨bytes.toArray⟩).map String.toList

/-- `read_text(encoding="utf-8")`. -/
def readText (bytes : List UInt8) : Option Text := (decoded bytes).map universalNewlines

def literals (toks : List Token) : List Text := (toks.filter fun t => t.kind = .string).map (·.text)

/-- The literals of the file are literals of the text handed over, in their order. -/
def Kept (u : Unicode) (file : Text) (st : Statement) : Prop :=
  ∀ toks toks', tokenize u file = .ok toks → tokenize u st.text = .ok toks' → (literals toks).Sublist (literals toks')

def Returnless (u : Unicode) (file : Text) : Prop :=
  ∀ toks, tokenize u file = .ok toks → ∀ l ∈ literals toks, '\r' ∉ l

/-- A carriage return in a line comment stands at its end. -/
def Unbroken (u : Unicode) (file : Text) : Prop :=
  ∀ toks, tokenize u file = .ok toks → ∀ t ∈ toks, t.kind = .comment → t.text.head? = some '-' → '\r' ∉ t.text.dropLast

def SameLiterals (u : Unicode) (file : Text) : Prop :=
  ∀ toks toks', tokenize u file = .ok toks → tokenize u (universalNewlines file) = .ok toks' →
    (literals toks).Sublist (literals toks')

section Translation

theorem universal_cons (h : c ≠ '\r') : universalNewlines (c :: s) = c :: universalNewlines s := by
  rw [universalNewlines]
  · exact fun _ hc _ => h hc
  · exact h

theorem universal_return (h : s.head? ≠ some '\n') : universalNewlines ('\r' :: s) = '\n' :: universalNewlines s := by
  cases s with
  | nil => rfl
  | cons d s =>
      have hd : d ≠ '\n' := by simpa using h
      rw [universalNewlines]
      simpa using hd

theorem universal_feed : universalNewlines ('\r' :: '\n' :: s) = universalNewlines ('\n' :: s) := by
  rw [universal_cons (c := '\n') (by decide), universalNewlines]

/-- What does not split a carriage return from its line feed is read part by part. -/
theorem universal_append (h : t.getLast? = some '\r' → z.head? ≠ some '\n') :
    universalNewlines (t ++ z) = universalNewlines t ++ universalNewlines z := by
  fun_induction universalNewlines t with
  | case1 cs ih =>
      rw [List.cons_append, List.cons_append, universalNewlines, ih, List.cons_append]
      intro hl
      apply h
      rw [List.getLast?_cons_cons, List.getLast?_cons, hl]
      rfl
  | case2 cs hcs ih =>
      rw [List.cons_append, universal_return, ih, List.cons_append]
      · intro hl
        apply h
        rw [List.getLast?_cons, hl]
        rfl
      · cases cs with
        | nil => exact h rfl
        | cons d cs =>
            intro hd
            obtain rfl : d = '\n' := by simpa using hd
            exact hcs cs rfl
  | case3 c cs h1 h2 ih =>
      have hc : c ≠ '\r' := by
        rintro rfl
        exact h2 rfl
      rw [List.cons_append, universal_cons hc, ih, List.cons_append]
      intro hl
      apply h
      rw [List.getLast?_cons, hl]
      rfl
  | case4 => rfl

theorem universal_self (h : '\r' ∉ t) : universalNewlines t = t := by
  induction t with
  | nil => rfl
  | cons c t ih =>
      rw [List.mem_cons, not_or] at h
      rw [universal_cons (Ne.symm h.1), ih h.2]

theorem mem_universal (h : d ∈ universalNewlines t) : d ≠ '\r' ∧ (d = '\n' ∨ d ∈ t) := by
  fun_induction universalNewlines t with
  | case1 cs ih =>
      obtain rfl | h := List.mem_cons.1 h
      · exact ⟨by decide, .inl rfl⟩
      · exact ⟨(ih h).1, (ih h).2.imp_right fun h => by simp [h]⟩
  | case2 cs hcs ih =>
      obtain rfl | h := List.mem_cons.1 h
      · exact ⟨by decide, .inl rfl⟩
      · exact ⟨(ih h).1, (ih h).2.imp_right fun h => by simp [h]⟩
  | case3 c cs h1 h2 ih =>
      obtain rfl | h := List.mem_cons.1 h
      · exact ⟨fun hd => h2 hd, .inr List.mem_cons_self⟩
      · exact ⟨(ih h).1, (ih h).2.imp_right (List.mem_cons_of_mem _)⟩
  | case4 => cases h

/-- What the translation shows before a line feed stood there before. -/
theorem universal_head (h : universalNewlines s = c :: t) (hc : c ≠ '\n') :
    ∃ s', s = c :: s' ∧ universalNewlines s' = t := by
  fun_cases universalNewlines s with
  | case1 cs =>
      rw [universalNewlines] at h
      obtain ⟨rfl, -⟩ := List.cons.inj h
      exact absurd rfl hc
  | case2 cs hcs =>
      rw [universalNewlines] at h
      · obtain ⟨rfl, -⟩ := List.cons.inj h
        exact absurd rfl hc
      · exact hcs
  | case3 d cs h1 h2 =>
      rw [universal_cons fun hd => h2 hd] at h
      obtain ⟨rfl, ht⟩ := List.cons.inj h
      exact ⟨cs, rfl, ht⟩
  | case4 => cases h

/-- Two characters side by side stood side by side. -/
theorem universal_within (hx : x ≠ '\n') (hy : y ≠ '\n') (h : [x, y] <:+: universalNewlines t) : [x, y] <:+: t := by
  obtain ⟨a, b, hab⟩ := h
  induction a generalizing t with
  | nil =>
      obtain ⟨t', rfl, ht⟩ := universal_head hab.symm hx
      obtain ⟨t'', rfl, -⟩ := universal_head ht hy
      exact ⟨[], t'', rfl⟩
  | cons d a ih =>
      fun_cases universalNewlines t with
      | case1 cs =>
          rw [universalNewlines] at hab
          exact (ih (List.cons.inj hab).2).trans ⟨['\r', '\n'], [], by simp⟩
      | case2 cs hcs =>
          rw [universalNewlines] at hab
          · exact (ih (List.cons.inj hab).2).trans ⟨['\r'], [], by simp⟩
          · exact hcs
      | case3 d cs h1 h2 =>
          rw [universal_cons fun hd => h2 hd] at hab
          exact (ih (List.cons.inj hab).2).trans ⟨[d], [], by simp⟩
      | case4 => simp [universalNewlines] at hab

end Translation

section Reading

def Calm (p : SqlPiece) : Prop :=
  (p.kind = some .string → '\r' ∉ p.text) ∧ (p.kind = some .comment → p.text.head? = some '-' → '\r' ∉ p.text.dropLast)

theorem gap_part (h : isGap d = true) : isIdentPart u d = false := (neutral_of (.inl h)).1

/-- No numeral, word or mark holds a carriage return. -/
theorem plain_returnless (h : Lexes u z c t kind) (hk : kind = some .number ∨ kind = some .word ∨ kind = some .punct) :
    '\r' ∉ c :: t := by
  have hpart : isIdentPart u '\r' = false := gap_part (by decide)
  have hstart : isIdentStart u '\r' = false := by rw [isIdentStart_ascii (by decide)]; decide
  have hdigit : u.isDigit '\r' = false := by rw [u.ascii_digit '\r' (by decide)]; decide
  have hnumber : isNumberChar u '\r' = false := by simp [isNumberChar, hdigit]
  intro hr
  cases h with
  | number hc hn =>
      generalize c :: t = x at hn hr
      cases hn with
      | plain ht =>
          rw [ht _ hr] at hnumber
          cases hnumber
      | @exponent m sign ds e hm he hs _ hd =>
          obtain hr | hr := List.mem_append.1 hr
          · rw [hm _ hr] at hnumber
            cases hnumber
          · obtain rfl | hr := List.mem_cons.1 hr
            · simp at he
            · obtain hr | hr := List.mem_append.1 hr
              · simp only [List.mem_cons, List.not_mem_nil, or_false] at hs
                obtain rfl | rfl | rfl := hs <;> simp at hr
              · rw [hd _ hr] at hdigit
                cases hdigit
  | word hc _ ht =>
      obtain rfl | hr := List.mem_cons.1 hr
      · rw [hc] at hstart
        cases hstart
      · rw [ht _ hr] at hpart
        cases hpart
  | punct _ hg =>
      rw [← List.mem_singleton.1 hr] at hg
      cases hg
  | _ => simp at hk

theorem exponent_universal (h : Exponent u (universalNewlines z)) : Exponent u z := by
  obtain ⟨e, sign, d, x, heq, he, hs, hd⟩ := h
  have hdigit : d ≠ '\n' := by
    rintro rfl
    rw [u.ascii_digit '\n' (by decide)] at hd
    cases hd
  obtain ⟨z', rfl, hz⟩ := universal_head heq (by obtain rfl | rfl := he <;> decide)
  have hrest : ∃ y, z' = sign ++ d :: y := by
    simp only [List.mem_cons, List.not_mem_nil, or_false] at hs
    obtain rfl | rfl | rfl := hs
    · obtain ⟨y, hy, -⟩ := universal_head hz hdigit
      exact ⟨y, hy⟩
    · obtain ⟨y, rfl, hy⟩ := universal_head hz (by decide)
      obtain ⟨w, rfl, -⟩ := universal_head hy hdigit
      exact ⟨w, rfl⟩
    · obtain ⟨y, rfl, hy⟩ := universal_head hz (by decide)
      obtain ⟨w, rfl, -⟩ := universal_head hy hdigit
      exact ⟨w, rfl⟩
  obtain ⟨y, rfl⟩ := hrest
  exact ⟨e, sign, d, y, rfl, he, hs, hd⟩

theorem head_universal (z : Text) :
    (universalNewlines z).head? = z.head? ∨ (universalNewlines z).head? = some '\n' := by
  fun_cases universalNewlines z with
  | case1 cs => exact .inr rfl
  | case2 cs hcs => exact .inr rfl
  | case3 c cs h1 h2 => exact .inl rfl
  | case4 => exact .inl rfl

/-- A step takes the same before the translated rest. -/
theorem lexes_universal (h : Lexes u z c t kind) : Lexes u (universalNewlines z) c t kind := by
  have hfeed : Neutral u '\n' := neutral_of (.inl (by decide))
  refine h.follow ?_ (fun _ => ?_) exponent_universal
  · obtain hz | hz := head_universal z
    · exact .inl hz
    · right
      rw [hz]
      rintro d ⟨⟩
      exact hfeed
  · obtain hz | hz := head_universal z
    · exact .inl hz
    · right
      rw [hz]
      split
      · simp
      · rintro d ⟨⟩
        rfl

def literalTexts (ps : List SqlPiece) : List Text := (ps.filter fun p => p.kind = some .string).map (·.text)

theorem literals_locate : ∀ {n : Nat}, literals (locate n ps) = literalTexts ps := by
  induction ps with
  | nil => exact rfl
  | cons p ps ih =>
      intro n
      obtain ⟨kind, text⟩ := p
      cases kind with
      | none => simpa [locate, literals, literalTexts] using ih (n := n + text.length)
      | some kind =>
          have hrest := ih (n := n + text.length)
          unfold literals literalTexts at hrest ⊢
          by_cases hk : kind = .string
          · simp [locate, hk, hrest]
          · simp [locate, hk, hrest]

theorem keeps_text (h : '\r' ∉ c :: t) (s : Text) :
    universalNewlines (c :: t ++ s) = c :: t ++ universalNewlines s := by
  rw [universal_append, universal_self h]
  intro hl
  exact absurd (List.mem_of_getLast? hl) h

/-- The pieces of the translated text are those of the file, translated. -/
theorem reads_universal (h : Reads (next u) [] ps) (hcalm : ∀ p ∈ ps, Calm p) :
    ∃ qs, Reads (next u) [] qs ∧ join qs = universalNewlines (join ps) ∧ literalTexts qs = literalTexts ps := by
  induction h with
  | nil => exact ⟨[], .nil, rfl, rfl⟩
  | @cons kind c t ps hstep hs ih =>
      obtain ⟨qs, hr, hjoin, hlit⟩ := ih fun p hp => hcalm p (List.mem_cons_of_mem _ hp)
      have hl : Lexes u (join ps) c t kind := by simpa using next_iff.1 hstep
      have hl' := lexes_universal hl
      have hp := hcalm _ List.mem_cons_self
      have hkept (hno : '\r' ∉ c :: t) : ∃ rs, Reads (next u) [] rs ∧
          join rs = universalNewlines (join (⟨kind, c :: t⟩ :: ps)) ∧
          literalTexts rs = literalTexts (⟨kind, c :: t⟩ :: ps) := by
        refine ⟨⟨kind, c :: t⟩ :: qs, reads_piece.2 ⟨by rw [hjoin, List.append_nil]; exact hl', hr⟩, ?_, ?_⟩
        · rw [join_cons, join_cons, hjoin]
          exact (keeps_text hno _).symm
        · unfold literalTexts at hlit ⊢
          by_cases hk : kind = some .string <;> simp [hk, hlit]
      by_cases hno : '\r' ∉ c :: t
      · exact hkept hno
      rw [not_not] at hno
      cases hl with
      | gap hg =>
          obtain rfl : '\r' = c := List.mem_singleton.1 hno
          by_cases hfeed : (join ps).head? = some '\n'
          · obtain ⟨s, hs⟩ := List.head?_eq_some_iff.1 hfeed
            refine ⟨qs, hr, ?_, hlit⟩
            rw [hjoin, join_cons, hs]
            exact universal_feed.symm
          · refine ⟨⟨none, ['\n']⟩ :: qs, reads_piece.2 ⟨.gap (by decide), hr⟩, ?_, hlit⟩
            rw [join_cons, hjoin, join_cons]
            exact (universal_return hfeed).symm
      | @lineComment t ht hz =>
          obtain ⟨w, rfl, hw⟩ : ∃ w, t = w ++ ['\r'] ∧ '\r' ∉ w := by
            have hdrop := hp.2 rfl rfl
            have hmem : '\r' ∈ t := by simpa using hno
            cases t using List.reverseRecOn with
            | nil => cases hmem
            | append_singleton w d =>
                have hw : '\r' ∉ w := by
                  rw [show '-' :: '-' :: (w ++ [d]) = ('-' :: '-' :: w) ++ [d] from rfl, List.dropLast_concat] at hdrop
                  simpa using hdrop
                obtain hm | hm := List.mem_append.1 hmem
                · exact absurd hm hw
                · exact ⟨w, by rw [List.mem_singleton.1 hm], hw⟩
          have hcomment (z : Text) (hz : ∀ d ∈ z.head?, d = '\n') : Lexes u z '-' ('-' :: w) (some .comment) :=
            .lineComment (fun hn => ht (List.mem_append_left _ hn)) hz
          have hkeep : '\r' ∉ '-' :: '-' :: w := by simpa using hw
          have hsplit (s : Text) : universalNewlines ('-' :: '-' :: (w ++ ['\r']) ++ s) =
              '-' :: '-' :: w ++ universalNewlines ('\r' :: s) := by
            rw [← keeps_text hkeep]
            simp
          by_cases hend : join ps = []
          · refine ⟨[⟨some .comment, '-' :: '-' :: w⟩, ⟨none, ['\n']⟩], ?_, ?_, ?_⟩
            · exact reads_piece.2 ⟨hcomment _ (by simp), reads_piece.2 ⟨.gap (by decide), .nil⟩⟩
            · change '-' :: '-' :: w ++ ['\n'] = universalNewlines ('-' :: '-' :: (w ++ ['\r']) ++ join ps)
              rw [hend, hsplit]
              rfl
            · obtain rfl : qs = [] := by
                rw [hend] at hjoin
                cases hr with
                | nil => rfl
                | cons => simp [universalNewlines] at hjoin
              exact hlit
          · have hfeed : (join ps).head? = some '\n' := by
              cases hj : join ps with
              | nil => exact absurd hj hend
              | cons d s =>
                  rw [hj] at hz
                  exact congrArg some (hz d rfl)
            obtain ⟨s, hs⟩ := List.head?_eq_some_iff.1 hfeed
            refine ⟨⟨some .comment, '-' :: '-' :: w⟩ :: qs, reads_piece.2 ⟨hcomment _ ?_, hr⟩, ?_, hlit⟩
            · rw [List.append_nil, hjoin, hs, universal_cons (by decide)]
              simp
            · rw [join_cons, hjoin, join_cons, hsplit, hs, universal_feed]
      | @blockComment t hc =>
          have hclose : universalNewlines ('/' :: '*' :: (t ++ ['*', '/']) ++ join ps) =
              '/' :: '*' :: (universalNewlines t ++ ['*', '/']) ++ universalNewlines (join ps) := by
            have hlast : ('/' :: '*' :: (t ++ ['*', '/'])).getLast? = some '/' := by
              rw [show '/' :: '*' :: (t ++ ['*', '/']) = ('/' :: '*' :: (t ++ ['*'])) ++ ['/'] by simp,
                List.getLast?_concat]
            rw [universal_append (by simp [hlast]), universal_cons (by decide), universal_cons (by decide),
              universal_append (by simp), universal_self (t := ['*', '/']) (by simp)]
          refine ⟨⟨some .comment, '/' :: '*' :: (universalNewlines t ++ ['*', '/'])⟩ :: qs,
            reads_piece.2 ⟨.blockComment ?_, hr⟩, ?_, hlit⟩
          · exact (closes_pair (by decide)).2 fun hi =>
              (closes_pair (by decide)).1 hc (universal_within (by decide) (by decide) hi)
          · rw [join_cons, hjoin, join_cons, hclose]
      | @quotedIdent t hq =>
          have hclose : universalNewlines ('"' :: (t ++ ['"']) ++ join ps) =
              '"' :: (universalNewlines t ++ ['"']) ++ universalNewlines (join ps) := by
            have hlast : ('"' :: (t ++ ['"'])).getLast? = some '"' := by
              rw [show '"' :: (t ++ ['"']) = ('"' :: t) ++ ['"'] from rfl, List.getLast?_concat]
            rw [universal_append (by simp [hlast]), universal_cons (by decide), universal_append (by simp),
              universal_self (t := ['"']) (by simp)]
          refine ⟨⟨some .quotedIdent, '"' :: (universalNewlines t ++ ['"'])⟩ :: qs,
            reads_piece.2 ⟨.quotedIdent fun hm => ?_, hr⟩, ?_, hlit⟩
          · obtain hm | hm := (mem_universal hm).2
            · cases hm
            · exact hq hm
          · rw [join_cons, hjoin, join_cons, hclose]
      | plain | dollar | alt | nationalAlt | national => exact absurd hno (hp.1 rfl)
      | number hc hn => exact absurd hno (plain_returnless (.number hc hn) (by simp))
      | word hc hd ht hend htag hpre => exact absurd hno (plain_returnless (.word hc hd ht hend htag hpre) (by simp))
      | punct hc hg hn hq hm hs => exact absurd hno (plain_returnless (.punct hc hg hn hq hm hs) (by simp))

end Reading

section Kept

theorem literalTexts_of_shapes {ps qs : List SqlPiece}
    (h : (sigShapes ps).filter (·.1 = .string) = (sigShapes qs).filter (·.1 = .string)) :
    literalTexts ps = literalTexts qs := by
  have htexts (ps : List SqlPiece) : literalTexts ps = ((sigShapes ps).filter (·.1 = .string)).map (·.2) := by
    unfold literalTexts sigShapes shapes
    induction ps with
    | nil => rfl
    | cons p ps ih =>
        obtain ⟨kind, text⟩ := p
        cases kind with
        | none => simpa using ih
        | some kind => cases kind <;> simp [ih]
  rw [htexts, htexts, h]

theorem filter_edges {xs : List Shape} (h : ∀ x ∈ xs, x.1 = .punct) : xs.filter (·.1 = .string) = [] := by
  rw [List.filter_eq_nil_iff]
  intro x hx
  simp [h x hx]

/-- White space that is cut off holds no literal. -/
theorem blank_punct (hr : Reads (next u) [] ps) (h : ∀ p ∈ qs, p ∈ ps ∧ blank u p = true) :
    ∀ x ∈ sigShapes qs, x.1 = .punct := by
  rintro ⟨kind, t⟩ hx
  obtain ⟨-, hp⟩ := mem_sigShapes.1 hx
  obtain ⟨hps, hblank⟩ := h _ hp
  obtain ⟨k, c, t', z, he, hl⟩ := reads_lexes hr hps
  cases he
  by_contra hk
  have hspace := (blank_iff hl).1 hblank
  rw [head_not_space hl (by simp) (by simpa using hk)] at hspace
  cases hspace

/-- The statement has the literals of the text it was made of. -/
theorem literals_statement (h : Normalizes u s st ps qs rs) :
    literalTexts (trimLast u (core u rs)) = literalTexts ps := by
  apply literalTexts_of_shapes
  have hsplit : sigShapes rs = sigShapes (lead u rs) ++ (sigShapes (core u rs) ++ sigShapes (trail u rs)) := by
    rw [← sigShapes_append, ← sigShapes_append, lead_core_trail]
  have hcore : (sigShapes (core u rs)).filter (·.1 = .string) = (sigShapes rs).filter (·.1 = .string) := by
    rw [hsplit, List.filter_append, List.filter_append,
      filter_edges (blank_punct h.reads'' fun p hp => mem_lead hp),
      filter_edges (blank_punct h.reads'' fun p hp => mem_trail hp), List.nil_append, List.append_nil]
  obtain ⟨tail, htail, hshape⟩ := Prose.shapes_closing h
  have hpunct : (tail.map shape).filter (·.1 = .string) = [] := by
    apply filter_edges
    intro x hx
    obtain ⟨t, ht, rfl⟩ := List.mem_map.1 hx
    obtain ⟨c, -, -, hc⟩ := htail t ht
    rw [hc]
  rw [shapes_trimLast, hcore, ← marks_shape, ← marks_shape, hshape, List.map_append, List.filter_append, hpunct,
    List.append_nil]

theorem tokenize_literals {toks : List Token} (h : tokenize u s = .ok toks) :
    ∃ ps, join ps = s ∧ Reads (next u) [] ps ∧ toks = locate 0 ps ∧ literals toks = literalTexts ps := by
  obtain ⟨ps, hj, hr, rfl⟩ := tokenize_ok.1 h
  exact ⟨ps, hj, hr, rfl, literals_locate⟩

theorem kept_iff_same {file : Text} (h : normalize u (universalNewlines file) = .ok st) :
    Kept u file st ↔ SameLiterals u file := by
  obtain ⟨ps, qs, rs, hn⟩ := normalize_ok h
  obtain ⟨htext, hreads⟩ := text_eq hn
  have hst : tokenize u st.text = .ok (locate 0 (trimLast u (core u rs))) := tokenize_ok.2 ⟨_, htext.symm, hreads, rfl⟩
  have hfile : tokenize u (universalNewlines file) = .ok (locate 0 ps) := tokenize_ok.2 ⟨_, hn.pieces, hn.reads, rfl⟩
  have hsame : literals (locate 0 (trimLast u (core u rs))) = literals (locate 0 ps) := by
    rw [literals_locate, literals_locate, literals_statement hn]
  constructor
  · intro hkept toks toks' ht ht'
    rw [hfile] at ht'
    cases ht'
    rw [← hsame]
    exact hkept _ _ ht hst
  · intro hlit toks toks' ht ht'
    rw [hst] at ht'
    cases ht'
    rw [hsame]
    exact hlit _ _ ht hfile

/-- A carriage return in a literal is lost. -/
theorem returnless_of_same {file : Text} (h : normalize u (universalNewlines file) = .ok st)
    (hsame : SameLiterals u file) : Returnless u file := by
  obtain ⟨ps, qs, rs, hn⟩ := normalize_ok h
  have hfile : tokenize u (universalNewlines file) = .ok (locate 0 ps) := tokenize_ok.2 ⟨_, hn.pieces, hn.reads, rfl⟩
  intro toks ht l hl hr
  have hmem := (hsame _ _ ht hfile).subset hl
  rw [literals_locate, literalTexts, List.mem_map] at hmem
  obtain ⟨p, hp, rfl⟩ := hmem
  have hin : '\r' ∈ join ps := List.mem_flatMap.2 ⟨p, (List.mem_filter.1 hp).1, hr⟩
  rw [hn.pieces] at hin
  exact (mem_universal hin).1 rfl

theorem mem_locate {p : SqlPiece} {kind : TokenKind} (hp : p ∈ ps) (hk : p.kind = some kind) :
    ∀ {n : Nat}, ∃ t ∈ locate n ps, t.kind = kind ∧ t.text = p.text := by
  induction ps with
  | nil => cases hp
  | cons q ps ih =>
      intro n
      obtain ⟨k, text⟩ := q
      obtain rfl | hp := List.mem_cons.1 hp
      · obtain rfl : k = some kind := hk
        exact ⟨_, List.mem_cons_self, rfl, rfl⟩
      · obtain ⟨t, ht, hkt⟩ := ih hp (n := n + text.length)
        cases k with
        | none => exact ⟨t, ht, hkt⟩
        | some k => exact ⟨t, List.mem_cons_of_mem _ ht, hkt⟩

theorem same_of_calm {file : Text} (hno : Returnless u file) (hun : Unbroken u file) : SameLiterals u file := by
  intro toks toks' ht ht'
  obtain ⟨ps, rfl, hr, rfl, hlit⟩ := tokenize_literals ht
  obtain ⟨qs, hqr, hj, hlit'⟩ := reads_universal hr fun p hp => by
    refine ⟨fun hk => ?_, fun hk hd => ?_⟩
    · apply hno _ ht
      rw [hlit]
      exact List.mem_map.2 ⟨p, List.mem_filter.2 ⟨hp, by simpa using hk⟩, rfl⟩
    · obtain ⟨t, htm, htk, htt⟩ := mem_locate hp hk (n := 0)
      rw [← htt] at hd ⊢
      exact hun _ ht t htm htk hd
  rw [← hj] at ht'
  have hq : tokenize u (join qs) = .ok (locate 0 qs) := tokenize_ok.2 ⟨_, rfl, hqr, rfl⟩
  rw [hq] at ht'
  cases ht'
  rw [hlit, literals_locate, hlit']

end Kept

/-- A literal that reaches the driver holds no carriage return, and where none changes a
line comment that is all there is to it. -/
theorem literals_kept {bytes : List UInt8} {file text : Text} (hfile : decoded bytes = some file)
    (hread : readText bytes = some text) (h : normalize u text = .ok st) :
    (Kept u file st → Returnless u file) ∧ (Returnless u file → Unbroken u file → Kept u file st) := by
  obtain rfl : universalNewlines file = text := by simpa [readText, hfile] using hread
  rw [kept_iff_same h]
  constructor
  · intro hsame
    exact returnless_of_same h hsame
  · intro hno hun
    exact same_of_calm hno hun

section Example

def bytesOf (s : String) : List UInt8 := s.toUTF8.data.toList

def select (text : String) : Statement where
  text := text.toList
  kind := .sql
  lead := ["SELECT"]
  names := ["SELECT"]

def windows : List UInt8 := bytesOf "SELECT 'a' -- one\r\n;\r\n"

theorem literals_kept_windows : Kept .ascii "SELECT 'a' -- one\r\n;\r\n".toList (select "SELECT 'a' -- one") := by
  have hfile : decoded windows = some "SELECT 'a' -- one\r\n;\r\n".toList := by decide +kernel
  have hread : readText windows = some "SELECT 'a' -- one\n;\n".toList := by decide +kernel
  have htoks : tokenize .ascii "SELECT 'a' -- one\r\n;\r\n".toList =
      .ok [⟨.word, "SELECT".toList, 0, 6⟩, ⟨.string, "'a'".toList, 7, 10⟩, ⟨.comment, "-- one\r".toList, 11, 18⟩,
        ⟨.punct, [';'], 19, 20⟩] := by
    decide +kernel
  apply (literals_kept hfile hread (by decide +kernel)).2
  · intro toks ht
    rw [htoks] at ht
    cases ht
    decide
  · intro toks ht
    rw [htoks] at ht
    cases ht
    decide

def broken : List UInt8 := bytesOf "SELECT 'a\r\nb'"

theorem return_lost : decoded broken = some "SELECT 'a\r\nb'".toList ∧
    readText broken = some "SELECT 'a\nb'".toList ∧
    normalize .ascii "SELECT 'a\nb'".toList = .ok (select "SELECT 'a\nb'") ∧
    (∀ adapter ∈ [Driver.Adapter.sqlite, .postgres, .oracle],
      Admission.admitStatement .ascii adapter (select "SELECT 'a\nb'") .atomic false = none) ∧
    ¬ Kept .ascii "SELECT 'a\r\nb'".toList (select "SELECT 'a\nb'") := by
  have hrun : normalize .ascii (universalNewlines "SELECT 'a\r\nb'".toList) = .ok (select "SELECT 'a\nb'") := by
    decide +kernel
  refine ⟨by decide +kernel, by decide +kernel, hrun, by decide +kernel, fun hkept => ?_⟩
  have htoks : tokenize .ascii "SELECT 'a\r\nb'".toList =
      .ok [⟨.word, "SELECT".toList, 0, 6⟩, ⟨.string, "'a\r\nb'".toList, 7, 13⟩] := by
    decide +kernel
  exact returnless_of_same hrun ((kept_iff_same hrun).1 hkept) _ htoks "'a\r\nb'".toList (by decide) (by decide)

end Example

end Migr8.Newlines
