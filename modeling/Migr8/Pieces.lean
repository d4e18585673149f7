import Migr8.Scanner

namespace Migr8.Pieces

open Characters Lib.Scanning SqlText Scanner

variable {u : Unicode} {c d : Char} {s t z text : Text} {kind : Option TokenKind} {n : Nat}

abbrev SqlPiece := Piece Char TokenKind

variable {p : SqlPiece} {ps qs : List SqlPiece} {toks : List Token}

/-- Everything but white space is left out by `strip` only at the end of a comment. -/
def blank (u : Unicode) (p : SqlPiece) : Bool := p.text.all u.isSpace

def trim (u : Unicode) (p : SqlPiece) : SqlPiece :=
  if p.kind = some .comment then { p with text := p.text.rdropWhile u.isSpace } else p

def trimLast (u : Unicode) : List SqlPiece → List SqlPiece
  | [] => []
  | [p] => [trim u p]
  | p :: q :: ps => p :: trimLast u (q :: ps)

def core (u : Unicode) (ps : List SqlPiece) : List SqlPiece := (ps.dropWhile (blank u)).rdropWhile (blank u)

theorem scan_ok : scan (next u) s = .ok ps ↔ join ps = s ∧ Reads (next u) [] ps := scan_eq_ok (next_bounded u)

theorem reads_piece : Reads (next u) z (⟨kind, c :: t⟩ :: ps) ↔ Lexes u (join ps ++ z) c t kind ∧
    Reads (next u) z ps := by
  rw [reads_cons, next_iff]

theorem reads_lexes (h : Reads (next u) z ps) (hp : p ∈ ps) :
    ∃ kind c t z', p = ⟨kind, c :: t⟩ ∧ Lexes u z' c t kind := by
  induction h with
  | nil => simp at hp
  | @cons kind c t ps hstep hs ih =>
      obtain rfl | hp := List.mem_cons.1 hp
      · exact ⟨kind, c, t, _, rfl, next_iff.1 hstep⟩
      · exact ih hp

section Space

theorem alnum_not_space (h : u.isAlnum c = true) : u.isSpace c = false := by
  cases hs : u.isSpace c with
  | false => rfl
  | true =>
      rw [u.space_alnum c hs] at h
      cases h

theorem mark_not_space : ∀ c ∈ ['_', '$', '#', ':', '-', '/', '"', '\'', 'q', 'Q', 'n', 'N', '.'],
    c.toNat < 128 ∧ isAsciiSpace c = false :=
  forall_of_all (by decide)

theorem not_space_of_mark (h : c ∈ ['_', '$', '#', ':', '-', '/', '"', '\'', 'q', 'Q', 'n', 'N', '.']) :
    u.isSpace c = false := by
  obtain ⟨hlt, hs⟩ := mark_not_space c h
  rw [u.ascii_space c hlt, hs]

theorem identStart_not_space (h : isIdentStart u c = true) : u.isSpace c = false := by
  rw [isIdentStart, Bool.or_eq_true, decide_eq_true_eq] at h
  obtain h | h := h
  · exact alnum_not_space (u.alpha_alnum c h)
  · apply not_space_of_mark
    simp only [List.mem_cons, List.not_mem_nil, or_false] at h ⊢
    tauto

theorem identPart_not_space (h : isIdentPart u c = true) : u.isSpace c = false := by
  rw [isIdentPart, Bool.or_eq_true, decide_eq_true_eq] at h
  obtain h | h := h
  · exact alnum_not_space h
  · apply not_space_of_mark
    simp only [List.mem_cons, List.not_mem_nil, or_false] at h ⊢
    tauto

theorem numberChar_not_space (h : isNumberChar u c = true) : u.isSpace c = false := by
  rw [isNumberChar, Bool.or_eq_true, decide_eq_true_eq] at h
  obtain h | rfl := h
  · exact alnum_not_space (u.digit_alnum c h)
  · exact not_space_of_mark (by simp)

/-- Only gaps and punctuation start with white space. -/
theorem head_not_space (h : Lexes u z c t kind) (hk : kind ≠ none) (hp : kind ≠ some .punct) :
    u.isSpace c = false := by
  cases h with
  | gap h => exact absurd rfl hk
  | punct => exact absurd rfl hp
  | lineComment | blockComment | quotedIdent | plain | dollar => exact not_space_of_mark (by simp)
  | alt hc | nationalAlt hc | national hc =>
      apply not_space_of_mark
      simp only [List.mem_cons, List.not_mem_nil, or_false]
      tauto
  | number hc hn =>
      apply numberChar_not_space
      obtain hc | ⟨rfl, _⟩ := hc
      · rw [isNumberChar, hc, Bool.true_or]
      · simp [isNumberChar]
  | word hc => exact identStart_not_space hc

theorem numeral_last_not_space (h : Numeral u z t) (hl : t.getLast? = some d) : u.isSpace d = false := by
  cases h with
  | plain ht _ _ => exact numberChar_not_space (ht d (List.mem_of_getLast? hl))
  | @exponent m sign ds e _ _ _ hds hd _ =>
      have hlast : ds.getLast? = some d := by
        rw [← hl, List.getLast?_append_of_ne_nil _ (by simp), List.getLast?_cons, List.getLast?_append_of_ne_nil _ hds]
        simp [List.getLast?_eq_some_getLast hds]
      exact alnum_not_space (u.digit_alnum d (hd d (List.mem_of_getLast? hlast)))

/-- Only gaps, punctuation and line comments end with white space. -/
theorem last_not_space (h : Lexes u z c t kind) (hk : kind ≠ none) (hp : kind ≠ some .punct)
    (hc : c ≠ '-') (hl : (c :: t).getLast? = some d) : u.isSpace d = false := by
  cases h with
  | gap h => exact absurd rfl hk
  | punct => exact absurd rfl hp
  | lineComment => exact absurd rfl hc
  | @dollar name t =>
      have hd : '$' = d := by simpa [tagOf, List.getLast?_append, List.getLast?_cons] using hl
      exact not_space_of_mark (by simp [← hd])
  | blockComment | quotedIdent | plain | alt | nationalAlt | national =>
      apply not_space_of_mark
      simp [List.getLast?_append, List.getLast?_cons] at hl
      simp [← hl]
  | number hc hn => exact numeral_last_not_space hn hl
  | word hc _ ht =>
      obtain rfl | hd := List.mem_cons.1 (List.mem_of_getLast? hl)
      · exact identStart_not_space hc
      · exact identPart_not_space (ht d hd)

theorem rdropWhile_append_all {p : Char → Bool} (h : ∀ d ∈ t, p d = true) :
    (s ++ t).rdropWhile p = s.rdropWhile p := by
  unfold List.rdropWhile
  rw [List.reverse_append, List.dropWhile_append_of_pos fun d hd => h d (List.mem_reverse.1 hd)]

theorem rdropWhile_append_ne {p : Char → Bool} (h : t.rdropWhile p ≠ []) :
    (s ++ t).rdropWhile p = s ++ t.rdropWhile p := by
  unfold List.rdropWhile at h ⊢
  have hne : (t.reverse.dropWhile p).isEmpty = false := by simpa using h
  rw [List.reverse_append, List.dropWhile_append, hne]
  simp

theorem rdropWhile_last {p : Char → Bool} (h : ∀ d ∈ t.getLast?, p d = false) : t.rdropWhile p = t := by
  induction t using List.reverseRecOn with
  | nil => rfl
  | append_singleton t d ih => rw [List.rdropWhile_concat, if_neg (by simp [h d])]

theorem trim_comment (h : Lexes u z c t (some .comment)) :
    ∃ t', (c :: t).rdropWhile u.isSpace = c :: t' ∧ Lexes u [] c t' (some .comment) := by
  have hshort := h.shorten (List.nil_prefix (l := z))
  cases h with
  | @blockComment t hclose =>
      refine ⟨'*' :: (t ++ ['*', '/']), rdropWhile_last ?_, hshort⟩
      intro d hd
      exact last_not_space hshort (by simp) (by simp) (by decide) hd
  | @lineComment t ht hz =>
      have hdash : u.isSpace '-' = false := not_space_of_mark (by simp)
      have hne : ['-', '-'].rdropWhile u.isSpace = ['-', '-'] := rdropWhile_last (by simp [hdash])
      have hsplit : ('-' :: '-' :: t).rdropWhile u.isSpace = '-' :: '-' :: t.rdropWhile u.isSpace := by
        by_cases hall : t.rdropWhile u.isSpace = []
        · have hspace : ∀ d ∈ t, u.isSpace d = true := by simpa [List.rdropWhile_eq_nil_iff] using hall
          have happ : (['-', '-'] ++ t).rdropWhile u.isSpace = ['-', '-'].rdropWhile u.isSpace :=
            rdropWhile_append_all hspace
          rw [hall, ← hne]
          exact happ
        · exact rdropWhile_append_ne (s := ['-', '-']) hall
      refine ⟨'-' :: t.rdropWhile u.isSpace, hsplit, .lineComment ?_ (by simp)⟩
      exact fun hn => ht ((List.rdropWhile_prefix _ t).subset hn)

theorem trimLast_prefix : join (trimLast u ps) <+: join ps := by
  induction ps using trimLast.induct with
  | case1 => exact List.prefix_refl _
  | case2 p =>
      simp only [trimLast, join_cons, join_nil, List.append_nil, trim]
      split
      · exact List.rdropWhile_prefix _ p.text
      · exact List.prefix_refl _
  | case3 p q ps ih =>
      simp only [trimLast, join_cons] at ih ⊢
      exact (List.prefix_append_right_inj _).2 ih

theorem reads_trimLast (h : Reads (next u) z ps) : Reads (next u) [] (trimLast u ps) := by
  induction ps using trimLast.induct with
  | case1 => exact .nil
  | case2 p =>
      obtain ⟨kind, text⟩ := p
      cases h with
      | @cons _ c t _ hstep hs =>
          have hl := next_iff.1 hstep
          simp only [trimLast, trim]
          split
          · next hk =>
              obtain rfl := hk
              obtain ⟨t', ht, hl'⟩ := trim_comment hl
              rw [ht]
              exact reads_piece.2 ⟨hl', .nil⟩
          · exact reads_piece.2 ⟨hl.shorten (List.nil_prefix), .nil⟩
  | case3 p q ps ih =>
      cases h with
      | @cons kind c t _ hstep hs =>
          have hl := next_iff.1 hstep
          refine reads_piece.2 ⟨hl.shorten ?_, ih hs⟩
          rw [List.append_nil]
          exact trimLast_prefix.trans (List.prefix_append _ _)

theorem short_text (h : Lexes u z c t kind) (hk : kind = none ∨ kind = some .punct) : t = [] := by
  cases h with
  | gap => rfl
  | punct => rfl
  | _ => simp at hk

theorem blank_iff (h : Lexes u z c t kind) : blank u ⟨kind, c :: t⟩ = true ↔ u.isSpace c = true := by
  constructor
  · intro hb
    exact (List.all_eq_true.1 hb) c (by simp)
  · intro hc
    by_cases hk : kind = none ∨ kind = some .punct
    · obtain rfl := short_text h hk
      simp [blank, hc]
    · rw [not_or] at hk
      rw [head_not_space h hk.1 hk.2] at hc
      cases hc

theorem dropWhile_join (h : Reads (next u) z ps) : (join ps).dropWhile u.isSpace = join (ps.dropWhile (blank u)) := by
  induction h with
  | nil => rfl
  | @cons kind c t ps hstep hs ih =>
      have hb := blank_iff (next_iff.1 hstep)
      by_cases hc : u.isSpace c = true
      · have hblank := hb.2 hc
        rw [List.dropWhile_cons_of_pos hblank, ← ih, join_cons]
        exact List.dropWhile_append_of_pos fun d hd => List.all_eq_true.1 hblank d hd
      · rw [List.dropWhile_cons_of_neg fun h => hc (hb.1 h), join_cons, List.cons_append,
          List.dropWhile_cons_of_neg hc]

theorem trim_text_ne (h : Lexes u z c t kind) (hb : ¬ blank u ⟨kind, c :: t⟩ = true) :
    (c :: t).rdropWhile u.isSpace = (trim u ⟨kind, c :: t⟩).text ∧ (trim u ⟨kind, c :: t⟩).text ≠ [] := by
  by_cases hk : kind = some .comment
  · subst hk
    obtain ⟨t', ht, -⟩ := trim_comment h
    simp [trim, ht]
  · simp only [trim, if_neg hk]
    refine ⟨rdropWhile_last fun d hd => ?_, by simp⟩
    by_cases hp : kind = none ∨ kind = some .punct
    · obtain rfl := short_text h hp
      cases hd
      simpa using fun hs => hb ((blank_iff h).2 hs)
    · rw [not_or] at hp
      refine last_not_space h hp.1 hp.2 ?_ hd
      rintro rfl
      obtain ⟨hc, -⟩ | ⟨hc, -⟩ := h.dash
      · exact hk hc
      · exact hp.2 hc

theorem trimLast_concat : trimLast u (ps ++ [p]) = ps ++ [trim u p] := by
  induction ps with
  | nil => rfl
  | cons q ps ih =>
      cases ps with
      | nil => rfl
      | cons r ps => exact congrArg (q :: ·) ih

theorem rdropWhile_join (h : Reads (next u) z ps) :
    (join ps).rdropWhile u.isSpace = join (trimLast u (ps.rdropWhile (blank u))) := by
  induction ps using List.reverseRecOn generalizing z with
  | nil => rfl
  | append_singleton ps p ih =>
      obtain ⟨hs, hp⟩ := reads_append.1 h
      rw [join_append, join_cons, join_nil, List.append_nil, List.rdropWhile_concat]
      split
      · next hb => rw [rdropWhile_append_all fun d hd => List.all_eq_true.1 hb d hd, ih hs]
      · next hb =>
          obtain ⟨kind, c, t, z', rfl, hl⟩ := reads_lexes hp (List.mem_singleton_self p)
          obtain ⟨htrim, hne⟩ := trim_text_ne hl hb
          rw [trimLast_concat, rdropWhile_append_ne (by rw [htrim]; exact hne), htrim, join_append, join_cons,
            join_nil, List.append_nil]

theorem reads_dropWhile (f : SqlPiece → Bool) (h : Reads (next u) z ps) : Reads (next u) z (ps.dropWhile f) := by
  rw [← List.takeWhile_append_dropWhile (p := f) (l := ps)] at h
  exact (reads_append.1 h).2

theorem reads_rdropWhile (f : SqlPiece → Bool) (h : Reads (next u) z ps) :
    ∃ z', Reads (next u) z' (ps.rdropWhile f) := by
  obtain ⟨qs, hqs⟩ := List.rdropWhile_prefix f ps
  rw [← hqs] at h
  exact ⟨_, (reads_append.1 h).1⟩

/-- What `strip` leaves is read as the pieces between the outermost blank ones. -/
theorem strip_join (h : Reads (next u) [] ps) :
    u.strip (join ps) = join (trimLast u (core u ps)) ∧ Reads (next u) [] (trimLast u (core u ps)) := by
  have hd := reads_dropWhile (blank u) h
  obtain ⟨z, hr⟩ := reads_rdropWhile (blank u) hd
  exact ⟨by rw [Unicode.strip, dropWhile_join h, rdropWhile_join hd]; rfl, reads_trimLast hr⟩

end Space

section Cut

/-- A text that starts like a gap or a comment, or does not start at all. -/
structure Trails (y : Text) : Prop where
  head : ∀ d ∈ y.head?, isGap d = true ∨ d = '-' ∨ d = '/'
  dashes : y.head? = some '-' → y.tail.head? = some '-'

def insignificant (p : SqlPiece) : Prop := p.kind = none ∨ p.kind = some .comment

theorem trails_join (h : Reads (next u) z ps) (hps : ∀ p ∈ ps, insignificant p) : Trails (join ps) := by
  cases h with
  | nil => exact ⟨by simp, by simp⟩
  | @cons kind c t ps hstep hs =>
      have hl := next_iff.1 hstep
      have hk : kind = none ∨ kind = some .comment := hps ⟨kind, c :: t⟩ (by simp)
      cases hl with
      | gap hg =>
          refine ⟨by simpa using .inl hg, ?_⟩
          intro hd
          cases hd
          simp [isGap] at hg
      | lineComment => exact ⟨by simp, by simp⟩
      | blockComment => exact ⟨by simp, by simp⟩
      | _ => simp at hk

theorem neutral_ascii : ∀ c ∈ [' ', '\t', '\r', '\n', '\x0c', '\x0b', '-', '/', ';'],
    c.toNat < 128 ∧ (c.isAlphanum || c ∈ ['_', '$', '#']) = false ∧ c ∉ ['\'', '.', '*'] :=
  forall_of_all (by decide)

theorem neutral_of (h : isGap d = true ∨ d = '-' ∨ d = '/' ∨ d = ';') : Neutral u d := by
  have hmem : d ∈ [' ', '\t', '\r', '\n', '\x0c', '\x0b', '-', '/', ';'] := by
    simp only [isGap, decide_eq_true_eq, List.mem_cons, List.not_mem_nil, or_false] at h ⊢
    tauto
  obtain ⟨hlt, hpart, hother⟩ := neutral_ascii d hmem
  exact ⟨by rw [isIdentPart_ascii hlt, hpart], hother⟩

theorem Trails.neutral {y : Text} (h : Trails y) : ∀ d ∈ y.head?, Neutral u d := by
  intro d hd
  apply neutral_of
  obtain h | h | h := h.head d hd
  · exact .inl h
  · exact .inr (.inl h)
  · exact .inr (.inr (.inl h))

theorem letter_e_part {e : Char} (he : e = 'e' ∨ e = 'E') : isIdentPart u e = true := by
  obtain rfl | rfl := he <;> rw [isIdentPart_ascii (by decide)] <;> decide

/-- No exponent reaches into what trails. -/
theorem Trails.exponent {w y x : Text} (h : Trails y) (he : Exponent u (w ++ y)) : Exponent u (w ++ x) := by
  obtain ⟨e, sign, d, r, heq, hletter, hs, hd⟩ := he
  rw [show e :: (sign ++ d :: r) = (e :: (sign ++ [d])) ++ r by simp] at heq
  obtain ⟨xs, hx, hy⟩ | ⟨xs, hw, -⟩ := List.append_eq_append_iff.1 heq
  · cases xs with
    | nil =>
        rw [List.append_nil] at hx
        exact ⟨e, sign, d, x, by rw [← hx]; simp, hletter, hs, hd⟩
    | cons a xs =>
        exfalso
        have hn : Neutral u a := h.neutral a (by rw [hy]; rfl)
        have hdigit : a ≠ d := by
          rintro rfl
          rw [hn.not_digit] at hd
          cases hd
        cases w with
        | nil =>
            obtain ⟨rfl, -⟩ : e = a ∧ _ := by simpa using hx
            have hpart := hn.1
            rw [letter_e_part hletter] at hpart
            cases hpart
        | cons b w =>
            obtain ⟨-, hx⟩ : e = b ∧ sign ++ [d] = w ++ a :: xs := by simpa using hx
            simp only [List.mem_cons, List.not_mem_nil, or_false] at hs
            obtain rfl | rfl | rfl := hs
            · cases w with
              | nil => simp_all
              | cons b w => simp at hx
            · cases w with
              | nil =>
                  obtain ⟨rfl, -⟩ : '+' = a ∧ _ := by simpa using hx
                  simpa [isGap] using h.head '+' (by rw [hy]; rfl)
              | cons b w =>
                  cases w with
                  | nil => simp_all
                  | cons b w => simp at hx
            · cases w with
              | nil =>
                  obtain ⟨rfl, rfl⟩ : '-' = a ∧ [d] = xs := by simpa using hx
                  have hdash := h.dashes (by rw [hy]; rfl)
                  obtain rfl : d = '-' := by simpa [hy] using hdash
                  rw [u.ascii_digit '-' (by decide)] at hd
                  simp [Char.isDigit] at hd
              | cons b w =>
                  cases w with
                  | nil => simp_all
                  | cons b w => simp at hx
  · refine ⟨e, sign, d, xs ++ x, ?_, hletter, hs, hd⟩
    rw [hw]
    simp

/-- The pieces read the same before another continuation when the last of them does. -/
theorem reads_follow {z' : Text} (h : Reads (next u) z ps) (he : ∀ w, Exponent u (w ++ z') → Exponent u (w ++ z))
    (hlast : ∀ kind c t, ps.getLast? = some ⟨kind, c :: t⟩ → Lexes u z c t kind → Lexes u z' c t kind) :
    Reads (next u) z' ps := by
  induction ps with
  | nil => exact .nil
  | cons p ps ih =>
      cases h with
      | @cons kind c t _ hstep hs =>
          have hl := next_iff.1 hstep
          cases ps with
          | nil => exact reads_piece.2 ⟨hlast _ _ _ rfl hl, .nil⟩
          | cons q ps =>
              obtain ⟨_, d, w, _, rfl, -⟩ := reads_lexes hs (List.mem_cons_self)
              exact reads_piece.2 ⟨hl.follow (.inl rfl) (fun _ => .inl rfl) (he _), ih hs hlast⟩

/-- Before what trails, a text reads as it does before a terminator, unless its
last dash and the dashes that follow become one comment. -/
theorem reads_cut {x : Char} {y : Text} (hx : x ≠ '\n') (hy : Trails y) (h : Reads (next u) (x :: y) ps)
    (hne : ¬ (ps.getLast? = some ⟨some .punct, ['-']⟩ ∧ y.head? = some '-')) : Reads (next u) y ps := by
  refine reads_follow h (fun w => hy.exponent) ?_
  intro kind c t hlast hl
  refine hl.follow (.inr hy.neutral) ?_ (hy.exponent (w := []))
  rintro rfl
  right
  obtain ⟨-, -, hz⟩ | ⟨rfl, rfl⟩ := hl.dash
  · exact absurd (hz x rfl) hx
  · rw [if_pos rfl]
    exact fun hd => hne ⟨hlast, hd⟩

/-- A dash that stands before a comment of dashes belongs to it. -/
theorem reads_glued {x : Text} (h : Reads (next u) x (ps ++ [⟨some .punct, ['-']⟩]))
    (hq : Reads (next u) z (⟨some .comment, '-' :: t⟩ :: qs)) :
    Reads (next u) z (ps ++ ⟨some .comment, '-' :: '-' :: t⟩ :: qs) := by
  obtain ⟨hl, hqs⟩ := reads_piece.1 hq
  cases hl with
  | @lineComment t ht hz =>
      have htrails : Trails ('-' :: '-' :: '-' :: t ++ (join qs ++ z)) := ⟨by simp, by simp⟩
      refine reads_append.2 ⟨reads_follow (reads_append.1 h).1 ?_ ?_, reads_piece.2 ⟨.lineComment ?_ hz, hqs⟩⟩
      · intro w he
        rw [join_cons, List.append_assoc] at he
        exact htrails.exponent he
      · intro kind c t' _ hl
        rw [join_cons, List.append_assoc]
        exact hl.follow (.inl rfl) (fun _ => .inl rfl) (htrails.exponent (w := []))
      · simpa using ht

end Cut

end Migr8.Pieces
