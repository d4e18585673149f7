import Migr8.Normal

namespace Migr8.Partition

open Characters Lib.Scanning SqlText Scanner Pieces Migr8.Normal

/-- `sql[start:stop]`. -/
def slice (sql : Text) (start stop : Nat) : Text := (sql.drop start).take (stop - start)

section Loop

variable (u : Unicode) (sql : Text)

def turn (index : Nat) : Except Failure (Option TokenKind × Nat) :=
  match sql.drop index with
  | [] => .ok (none, index)
  | c :: rest =>
      if isGap c then .ok (none, index + 1)
      else if c = '-' ∧ rest.head? = some '-' then
        match find ['\n'] (sql.drop index) with
        | none => .ok (some .comment, sql.length)
        | some n => .ok (some .comment, index + n)
      else if c = '/' ∧ rest.head? = some '*' then
        match find ['*', '/'] (sql.drop (index + 2)) with
        | none => .error (.syntaxError "unterminated block comment")
        | some n => .ok (some .comment, index + 2 + n + 2)
      else if c = '"' then (scanQuotedIdent rest).map fun n => (some .quotedIdent, index + 1 + n)
      else if c = '\'' then (scanPlainString rest).map fun n => (some .string, index + 1 + n)
      else (tryScanLiteral u c rest).map fun
        | some n => (some .string, index + 1 + n)
        | none =>
            if u.isDigit c ∨ (c = '.' ∧ rest.head?.any u.isDigit) then (some .number, index + scanNumber u (c :: rest))
            else if isIdentStart u c then (some .word, index + 1 + (rest.takeWhile (isIdentPart u)).length)
            else (some .punct, index + 1)

/-- The loop of `tokenize`, for at most `fuel` turns. -/
def loop : Nat → Nat → List Token → Option (Except Failure (List Token))
  | 0, _, _ => none
  | fuel + 1, index, tokens =>
      if index < sql.length then
        match turn u sql index with
        | .error e => some (.error e)
        | .ok (none, stop) => loop fuel stop tokens
        | .ok (some kind, stop) => loop fuel stop (tokens ++ [⟨kind, slice sql index stop, index, stop⟩])
      else some (.ok tokens)

end Loop

/-- A comment, a string or a quoted identifier from where it opens to where it is closed
for the first time. -/
inductive Form (after : Text) : TokenKind → Text → Prop
  | line {t : Text} (h : '\n' ∉ t) (ha : ∀ d ∈ after.head?, d = '\n') : Form after .comment ('-' :: '-' :: t)
  | block {t : Text} (h : Closes ['*', '/'] t) : Form after .comment ('/' :: '*' :: (t ++ ['*', '/']))
  | quoted {t : Text} (h : '"' ∉ t) : Form after .quotedIdent ('"' :: (t ++ ['"']))
  | plain {t : Text} (h : Doubled t) (ha : after.head? ≠ some '\'') : Form after .string ('\'' :: (t ++ ['\'']))
  | dollar {name t : Text} (hn : TagName name) (h : Closes (tagOf name) t) :
      Form after .string (tagOf name ++ (t ++ tagOf name))
  | alternative {c d : Char} {t : Text} (hc : c ∈ ['q', 'Q']) (hd : d ∉ [' ', '\t', '\r', '\n'])
      (h : Closes [altCloser d, '\''] t) : Form after .string (c :: '\'' :: d :: (t ++ [altCloser d, '\'']))
  | national {c : Char} {t : Text} (hc : c ∈ ['n', 'N']) (h : Doubled t) (ha : after.head? ≠ some '\'') :
      Form after .string (c :: '\'' :: (t ++ ['\'']))
  | nationalAlternative {c q d : Char} {t : Text} (hc : c ∈ ['n', 'N']) (hq : q ∈ ['q', 'Q'])
      (hd : d ∉ [' ', '\t', '\r', '\n']) (h : Closes [altCloser d, '\''] t) :
      Form after .string (c :: q :: '\'' :: d :: (t ++ [altCloser d, '\'']))

def formed : List TokenKind := [.comment, .string, .quotedIdent]

def weave (sql : Text) : Nat → List Token → Text
  | start, [] => sql.drop start
  | start, t :: ts => slice sql start t.start ++ (t.text ++ weave sql t.stop ts)

/-- The tokens and the white space between them are the whole text. -/
structure Lossless (sql : Text) (toks : List Token) : Prop where
  nonempty : ∀ t ∈ toks, t.text ≠ []
  ordered : toks.Pairwise fun a b => a.stop ≤ b.start
  within : ∀ t ∈ toks, t.start < t.stop ∧ t.stop ≤ sql.length
  sliced : ∀ t ∈ toks, t.text = slice sql t.start t.stop
  gaps : ∀ i < sql.length, (∀ t ∈ toks, ¬ (t.start ≤ i ∧ i < t.stop)) → ∀ c ∈ sql[i]?, isGap c = true
  complete : ∀ t ∈ toks, t.kind ∈ formed → Form (sql.drop t.stop) t.kind t.text
  rebuilt : weave sql 0 toks = sql

variable {u : Unicode} {sql : Text} {index stop fuel n : Nat} {toks : List Token} {t : Token} {c : Char} {rest : Text}
  {kind : Option TokenKind} {ps : List SqlPiece}

section Turns

theorem find_newline (c : Char) (rest : List Char) :
    find ['\n'] (c :: rest) = none ∧ (c :: rest).takeWhile (fun d => d ≠ '\n') = c :: rest ∨
    ∃ n, find ['\n'] (c :: rest) = some n ∧ ((c :: rest).takeWhile fun d => d ≠ '\n').length = n := by
  cases hf : find ['\n'] (c :: rest) with
  | none =>
      have hno := find_singleton.1 hf
      refine .inl ⟨rfl, List.takeWhile_eq_self_iff.2 fun d hd => ?_⟩
      exact decide_eq_true fun he => hno (he ▸ hd)
  | some n =>
      obtain ⟨t, z, ht, rfl, hc⟩ := find_eq_some.1 hf
      have hno := closes_singleton.1 hc
      have htake : (c :: rest).takeWhile (fun d => d ≠ '\n') = t := by
        rw [ht]
        apply takeWhile_stop
        · intro d hd
          exact decide_eq_true fun he => hno (he ▸ hd)
        · simp
      exact .inr ⟨t.length, rfl, by rw [htake]⟩

theorem turn_eq (h : sql.drop index = c :: rest) :
    turn u sql index = (next u c rest).map fun r => (r.1, index + 1 + r.2) := by
  have hlen : sql.length = index + 1 + rest.length := by
    have hdrop := congrArg List.length h
    rw [List.length_drop, List.length_cons] at hdrop
    omega
  have hrest : sql.drop (index + 1) = rest := by rw [← List.drop_drop, h, List.drop_one, List.tail_cons]
  have htwo : sql.drop (index + 2) = rest.drop 1 := by rw [← hrest, List.drop_drop]
  unfold turn next
  rw [htwo, h]
  dsimp only
  by_cases hg : isGap c = true
  · rw [if_pos hg, if_pos hg]
    rfl
  rw [if_neg hg, if_neg hg]
  by_cases hm : c = '-' ∧ rest.head? = some '-'
  · rw [if_pos hm, if_pos hm]
    have htake : (c :: rest).takeWhile (fun d => d ≠ '\n') = c :: rest.takeWhile fun d => d ≠ '\n' := by
      rw [List.takeWhile_cons_of_pos]
      simp [hm.1]
    rcases find_newline c rest with ⟨hf, hall⟩ | ⟨n, hf, hn⟩
    · rw [htake, List.cons.injEq] at hall
      rw [hf, hall.2]
      simp only [Except.map, hlen]
    · rw [htake, List.length_cons] at hn
      rw [hf]
      simp only [Except.map, ← hn]
      congr 2
      omega
  rw [if_neg hm, if_neg hm]
  by_cases hb : c = '/' ∧ rest.head? = some '*'
  · rw [if_pos hb, if_pos hb]
    cases find ['*', '/'] (rest.drop 1) with
    | none => rfl
    | some n =>
        simp only [Except.map]
        congr 2
        omega
  rw [if_neg hb, if_neg hb]
  by_cases hq : c = '"'
  · rw [if_pos hq, if_pos hq]
    cases scanQuotedIdent rest <;> rfl
  rw [if_neg hq, if_neg hq]
  by_cases hs : c = '\''
  · rw [if_pos hs, if_pos hs]
    cases scanPlainString rest <;> rfl
  rw [if_neg hs, if_neg hs]
  cases tryScanLiteral u c rest with
  | error e => rfl
  | ok r =>
      cases r with
      | some n => rfl
      | none =>
          simp only [Except.map, literalOr, nextPlain]
          by_cases hn : NumberStart u c rest
          · have hone := numberStart_one hn
            unfold NumberStart at hn
            rw [if_pos hn, if_pos hn]
            congr 2
            omega
          · unfold NumberStart at hn
            rw [if_neg hn, if_neg hn]
            by_cases hi : isIdentStart u c = true
            · rw [if_pos hi, if_pos hi]
            · rw [if_neg hi, if_neg hi]
              rfl

theorem exists_head (h : index < sql.length) : ∃ c rest, sql.drop index = c :: rest :=
  ⟨_, _, List.drop_eq_getElem_cons h⟩

/-- A turn moves strictly forward, and never past the end. -/
theorem turn_advances (h : index < sql.length) (ht : turn u sql index = .ok (kind, stop)) :
    index < stop ∧ stop ≤ sql.length := by
  obtain ⟨c, rest, hdrop⟩ := exists_head h
  have hlen := congrArg List.length hdrop
  rw [List.length_drop, List.length_cons] at hlen
  rw [turn_eq hdrop, map_ok] at ht
  obtain ⟨r, hr, hstop⟩ := ht
  have hmore := next_bounded u c rest r.1 r.2 hr
  cases hstop
  omega

/-- Every turn shortens what is left, so the loop ends with the tokens of the scan. -/
theorem loop_eq (hf : sql.length - index < fuel) : loop u sql fuel index toks =
    some ((scan (next u) (sql.drop index)).map fun ps => toks ++ locate index ps) := by
  induction fuel generalizing index toks with
  | zero => omega
  | succ fuel ih =>
      rw [loop]
      by_cases h : index < sql.length
      · obtain ⟨c, rest, hdrop⟩ := exists_head h
        rw [if_pos h, hdrop, scan_cons]
        cases hnext : next u c rest with
        | error e =>
            rw [turn_eq hdrop, hnext]
            rfl
        | ok r =>
            obtain ⟨kind, more⟩ := r
            have hturn : turn u sql index = .ok (kind, index + 1 + more) := by
              rw [turn_eq hdrop, hnext]
              rfl
            obtain ⟨hlt, hle⟩ := turn_advances h hturn
            have hdrop' : sql.drop (index + 1 + more) = rest.drop more := by
              rw [← List.drop_drop, ← List.drop_drop, hdrop, List.drop_one, List.tail_cons]
            have hmore : more ≤ rest.length := next_bounded u c rest kind more hnext
            have hpiece : (c :: rest.take more).length = 1 + more := by
              rw [List.length_cons, List.length_take, Nat.min_eq_left hmore, Nat.add_comm]
            have hslice : slice sql index (index + 1 + more) = c :: rest.take more := by
              rw [slice, hdrop, show index + 1 + more - index = more + 1 by omega, List.take_succ_cons]
            rw [hturn]
            cases kind with
            | none =>
                dsimp only
                rw [ih (by omega), hdrop']
                cases hscan : scan (next u) (rest.drop more) with
                | error e => simp [bind, Except.bind, Except.map, hscan]
                | ok ps => simp [bind, Except.bind, Except.map, hscan, locate, hpiece, pure, Except.pure, Nat.add_assoc]
            | some kind =>
                dsimp only
                rw [ih (by omega), hdrop', hslice]
                cases hscan : scan (next u) (rest.drop more) with
                | error e => simp [bind, Except.bind, Except.map, hscan]
                | ok ps => simp [bind, Except.bind, Except.map, hscan, locate, hpiece, pure, Except.pure, Nat.add_assoc]
      · have hnil : sql.drop index = [] := List.drop_eq_nil_iff.2 (Nat.le_of_not_lt h)
        rw [if_neg h, hnil, scan_nil]
        simp [Except.map, locate]

end Turns

section Pieces

variable {ps : List SqlPiece} {front : Text}

theorem locate_split (ht : t ∈ locate n ps) : ∃ a x b, ps = a ++ ⟨some t.kind, x⟩ :: b ∧ t.text = x ∧
    t.start = n + (join a).length ∧ t.stop = t.start + x.length := by
  induction ps generalizing n with
  | nil => simp [locate] at ht
  | cons p ps ih =>
      obtain ⟨kind, text⟩ := p
      have hrest (h : t ∈ locate (n + text.length) ps) : ∃ a x b, ⟨kind, text⟩ :: ps = a ++ ⟨some t.kind, x⟩ :: b ∧
          t.text = x ∧ t.start = n + (join a).length ∧ t.stop = t.start + x.length := by
        obtain ⟨a, x, b, rfl, hx, hstart, hstop⟩ := ih h
        refine ⟨⟨kind, text⟩ :: a, x, b, rfl, hx, ?_, hstop⟩
        rw [hstart, join_cons, List.length_append, Nat.add_assoc]
      cases kind with
      | none => exact hrest ht
      | some kind =>
          rcases List.mem_cons.1 ht with rfl | ht
          · exact ⟨[], text, ps, rfl, rfl, rfl, rfl⟩
          · exact hrest ht

theorem mem_locate_append (a b : List SqlPiece) (k : TokenKind) (x : Text) :
    ⟨k, x, n + (join a).length, n + (join a).length + x.length⟩ ∈ locate n (a ++ ⟨some k, x⟩ :: b) := by
  rw [locate_append]
  exact List.mem_append_right _ List.mem_cons_self

theorem locate_ordered (n : Nat) (ps : List SqlPiece) : (locate n ps).Pairwise fun a b => a.stop ≤ b.start := by
  induction ps generalizing n with
  | nil => exact .nil
  | cons p ps ih =>
      obtain ⟨kind, text⟩ := p
      cases kind with
      | none => exact ih _
      | some kind =>
          refine .cons (fun t ht => ?_) (ih _)
          obtain ⟨a, -, -, -, -, hstart, -⟩ := locate_split ht
          rw [hstart]
          exact Nat.le_add_right _ _

/-- Some piece covers each place. -/
theorem covering {i : Nat} (h : i < (join ps).length) : ∃ a p b, ps = a ++ p :: b ∧ (join a).length ≤ i ∧
    i < (join a).length + p.text.length := by
  induction ps generalizing i with
  | nil => simp at h
  | cons p ps ih =>
      by_cases hi : i < p.text.length
      · exact ⟨[], p, ps, rfl, Nat.zero_le _, by simpa using hi⟩
      · rw [join_cons, List.length_append] at h
        obtain ⟨a, q, b, rfl, hle, hlt⟩ := ih (i := i - p.text.length) (by omega)
        refine ⟨p :: a, q, b, rfl, ?_, ?_⟩
        · rw [join_cons, List.length_append]
          omega
        · rw [join_cons, List.length_append]
          omega

theorem form_of_lexes {z : Text} {k : TokenKind} (h : Lexes u z c rest (some k)) (hk : k ∈ formed) :
    Form z k (c :: rest) := by
  cases h with
  | lineComment ht hz => exact .line ht hz
  | blockComment h => exact .block h
  | quotedIdent h => exact .quoted h
  | plain h hz => exact .plain h hz
  | @dollar name t hn h =>
      have heq : '$' :: (name ++ '$' :: (t ++ tagOf name)) = tagOf name ++ (t ++ tagOf name) := by simp [tagOf]
      rw [heq]
      exact .dollar hn h
  | alt hc hd h => exact .alternative (by simpa using hc) hd h
  | nationalAlt hc hq hd h => exact .nationalAlternative (by simpa using hc) (by simpa using hq) hd h
  | national hc h hz => exact .national (by simpa using hc) h hz
  | number => simp [formed] at hk
  | word => simp [formed] at hk
  | punct => simp [formed] at hk

theorem weave_eq (hw : ∀ t ∈ toks, index ≤ t.start ∧ t.start ≤ t.stop ∧ t.text = slice sql t.start t.stop)
    (ho : toks.Pairwise fun a b => a.stop ≤ b.start) : weave sql index toks = sql.drop index := by
  induction toks generalizing index with
  | nil => rfl
  | cons t ts ih =>
      obtain ⟨hle, hlt, htext⟩ := hw t List.mem_cons_self
      obtain ⟨hfirst, ho⟩ := List.pairwise_cons.1 ho
      have hrest : weave sql t.stop ts = sql.drop t.stop :=
        ih (fun t' ht' => ⟨hfirst t' ht', (hw t' (List.mem_cons_of_mem _ ht')).2⟩) ho
      have hskip {a b : Nat} (h : a ≤ b) : slice sql a b ++ sql.drop b = sql.drop a := by
        have hdrop : sql.drop b = (sql.drop a).drop (b - a) := by
          rw [List.drop_drop, Nat.add_sub_cancel' h]
        rw [slice, hdrop, List.take_append_drop]
      rw [weave, hrest, htext, hskip hlt, hskip hle]

theorem reads_at {a b : List SqlPiece} {p : SqlPiece} (hr : Reads (next u) [] (a ++ p :: b)) :
    ∃ c x, p.text = c :: x ∧ Lexes u (join b) c x p.kind := by
  obtain ⟨-, hr⟩ := reads_append.1 hr
  cases hr with
  | @cons kind c x _ hstep hs =>
      refine ⟨c, x, rfl, ?_⟩
      rw [List.append_nil] at hstep
      exact next_iff.1 hstep

/-- The tokens of a text that is read divide it up. -/
theorem lossless_of (hr : Reads (next u) [] ps) : Lossless (join ps) (locate 0 ps) := by
  have hat {t : Token} (ht : t ∈ locate 0 ps) :
      ∃ (a b : List SqlPiece) (c : Char) (x : Text), join ps = join a ++ (t.text ++ join b) ∧
      t.text = c :: x ∧ t.start = (join a).length ∧ t.stop = t.start + t.text.length ∧
        Lexes u (join b) c x (some t.kind) := by
    obtain ⟨a, x, b, rfl, htext, hstart, hstop⟩ := locate_split ht
    obtain ⟨c, y, hx, hl⟩ := reads_at hr
    subst htext
    exact ⟨a, b, c, y, by simp, hx, by omega, hstop, hl⟩
  have hslice {t : Token} (ht : t ∈ locate 0 ps) : t.text = slice (join ps) t.start t.stop := by
    obtain ⟨a, b, c, x, hjoin, -, hstart, hstop, -⟩ := hat ht
    rw [slice, hjoin, hstop, hstart, List.drop_left, Nat.add_sub_cancel_left, List.take_left]
  have hwithin {t : Token} (ht : t ∈ locate 0 ps) : t.start < t.stop ∧ t.stop ≤ (join ps).length := by
    obtain ⟨a, b, c, x, hjoin, htext, hstart, hstop, -⟩ := hat ht
    have hlen : (join ps).length = (join a).length + (t.text.length + (join b).length) := by
      rw [hjoin, List.length_append, List.length_append]
    have hpos : t.text.length = x.length + 1 := by rw [htext, List.length_cons]
    omega
  refine ⟨fun t ht => ?_, locate_ordered 0 ps, fun t ht => hwithin ht, fun t ht => hslice ht, ?_, fun t ht hk => ?_, ?_⟩
  · obtain ⟨a, b, c, x, -, htext, -⟩ := hat ht
    rw [htext]
    simp
  · intro i hi hfree c hc
    obtain ⟨a, p, b, rfl, hle, hlt⟩ := covering hi
    obtain ⟨kind, x⟩ := p
    obtain ⟨d, y, hx, hl⟩ := reads_at hr
    dsimp only at hlt hx hl
    cases kind with
    | some kind =>
        exact absurd ⟨by simpa using hle, by simpa using hlt⟩ (hfree _ (mem_locate_append (n := 0) a b kind x))
    | none =>
        cases hl with
        | gap hg =>
            subst hx
            have hi : i = (join a).length := by
              rw [List.length_singleton] at hlt
              omega
            rw [hi, join_append, List.getElem?_append_right (Nat.le_refl _), Nat.sub_self] at hc
            cases hc
            exact hg
  · obtain ⟨a, b, c, x, hjoin, htext, hstart, hstop, hl⟩ := hat ht
    have hdrop : (join ps).drop t.stop = join b := by
      rw [hjoin, hstop, hstart, ← List.append_assoc, ← List.length_append, List.drop_left]
    rw [hdrop, htext]
    exact form_of_lexes hl hk
  · exact weave_eq (fun t ht => ⟨Nat.zero_le _, (hwithin ht).1.le, hslice ht⟩) (locate_ordered 0 ps)

end Pieces

/-- The loop of the scanner moves on at every turn and ends on every text; the tokens
it accepts a text with are complete, and with the white space between them are the text. -/
theorem tokenize_partition (u : Unicode) (sql : Text) :
    (∀ toks, tokenize u sql = .ok toks → Lossless sql toks) ∧
      (∀ fuel, sql.length < fuel → loop u sql fuel 0 [] = some (tokenize u sql)) ∧
      ∀ index kind stop, index < sql.length → turn u sql index = .ok (kind, stop) →
        index < stop ∧ stop ≤ sql.length := by
  refine ⟨fun toks h => ?_, fun fuel hf => ?_, fun index kind stop h ht => turn_advances h ht⟩
  · obtain ⟨ps, rfl, hr, rfl⟩ := tokenize_ok.1 h
    exact lossless_of hr
  · rw [loop_eq (by omega), List.drop_zero, tokenize]
    rfl

end Migr8.Partition
