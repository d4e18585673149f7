import Migr8.Scanner
import Mathlib.Data.List.Forall2

namespace Migr8.Conditions

open Characters Lib.Scanning SqlText Scanner

inductive ConditionKind where
  | literal | quoted | identifier | number | operator
  deriving DecidableEq, Repr

abbrev ConditionToken := ConditionKind × Text

/-- What `\d` matches. -/
structure Decimals where
  holds : Char → Bool
  ascii : ∀ c : Char, c.toNat < 128 → holds c = c.isDigit

theorem digit_ascii (c : Char) (_ : c.toNat < 128) : Char.isDigit c = c.isDigit := rfl

def Decimals.plain : Decimals := ⟨Char.isDigit, digit_ascii⟩

def longOperators : List Text := [['<', '>'], ['!', '='], ['<', '='], ['>', '='], ['|', '|'], [':', ':']]

def shortOperators : List Char := ['(', ')', '[', ']', ',', '.', '+', '-', '*', '/', '%', '<', '>', '=']

def operators : List Text := longOperators ++ shortOperators.map ([·])

/-- Where `q(?:[^q]|qq)*q` ends after its first quote. When nothing closes the text
behind a doubled quote, the search comes back to the first quote of the two. -/
def quotedEnd (q : Char) : Text → Option Nat
  | [] => none
  | c :: cs =>
      if c = q then
        match cs with
        | [] => some 1
        | d :: ds => if d = q then ((quotedEnd q ds).map (· + 2)).or (some 1) else some 1
      else (quotedEnd q cs).map (· + 1)

section Scan

variable (u : Unicode) (dec : Decimals)

/-- What follows the first digit of `\d+(?:\.\d+)*`. -/
def numberRest : Text → Nat
  | [] => 0
  | c :: cs =>
      if dec.holds c || (c = '.' && cs.head?.any dec.holds) then numberRest cs + 1 else 0

def conditionStep : Step Char ConditionKind Unit := fun c rest =>
  if c = '\'' then
    match quotedEnd '\'' rest with
    | some n => .ok (some .literal, n)
    | none => .error ()
  else if c = '"' then
    match quotedEnd '"' rest with
    | some n => .ok (some .quoted, n)
    | none => .error ()
  else if isWordStart c then .ok (some .identifier, (rest.takeWhile isWordPart).length)
  else if dec.holds c then .ok (some .number, numberRest dec rest)
  else if (c :: rest).take 2 ∈ longOperators then .ok (some .operator, 1)
  else if c ∈ shortOperators then .ok (some .operator, 0)
  else if u.isSpace c then .ok (none, (rest.takeWhile u.isSpace).length)
  else .error ()

def tokensOf (ps : List (Piece Char ConditionKind)) : List ConditionToken :=
  ps.filterMap fun p => p.kind.map (·, p.text)

def conditionTokens (text : Text) : Option (List ConditionToken) :=
  match scan (conditionStep u dec) text with
  | .ok ps => some (tokensOf ps)
  | .error _ => none

def IsIdentifier (t : Text) : Prop := ∃ c s, t = c :: s ∧ isWordStart c = true ∧ ∀ d ∈ s, isWordPart d = true

def IsNumber (t : Text) : Prop := ∃ c s, t = c :: s ∧ dec.holds c = true ∧ ∀ d ∈ s, dec.holds d = true ∨ d = '.'

/-- An engine's case folding: it leaves identifiers identifiers, and what has no case as it is. -/
structure Fold where
  apply : Text → Text
  identifier : ∀ t, IsIdentifier t → IsIdentifier (apply t) ∧ (apply t).length = t.length
  number : ∀ t, IsNumber dec t → apply t = t
  operator : ∀ t ∈ operators, apply t = t

variable (fold : Fold dec)

def render (t : ConditionToken) : Text :=
  match t.1 with
  | .literal => t.2
  | .quoted => inner t.2
  | _ => fold.apply t.2

def joined : List Text → Text
  | [] => []
  | t :: ts => t ++ ts.flatMap (' ' :: ·)

def canonicalCondition (text : Text) : Option Text := do
  let tokens ← conditionTokens u dec text
  let canonical := joined (tokens.map (render dec fold))
  if canonical = [] then none else some canonical

end Scan

section Agreement

variable (u : Unicode) (dec : Decimals) (fold : Fold dec)

def IsName (t : ConditionToken) : Prop := t.1 = .identifier ∨ t.1 = .quoted

/-- Identifiers agree by their spelling, folded or exact; all else agrees with itself only. -/
def Matches (a b : ConditionToken) : Prop :=
  (IsName a ∧ IsName b ∧ render dec fold a = render dec fold b) ∨ (¬ IsName a ∧ a = b)

def Agrees (x y : Text) : Prop :=
  ∃ xs ys, conditionTokens u dec x = some xs ∧ conditionTokens u dec y = some ys ∧ List.Forall₂ (Matches dec fold) xs ys

/-- The content of a quoted identifier that does not read as one unquoted name would:
it holds a space, starts like a literal or a number, or is an operator. -/
def Odd (content : Text) : Prop :=
  ' ' ∈ content ∨ content.head? = some '\'' ∨ content.head?.any dec.holds = true ∨ content ∈ operators

instance (content : Text) : Decidable (Odd dec content) := inferInstanceAs (Decidable (_ ∨ _))

def oddNames (start : Nat) : List ConditionToken → List (Nat × Text)
  | [] => []
  | t :: ts =>
      let more := oddNames (start + (render dec fold t).length + 1) ts
      if t.1 = .quoted ∧ Odd dec (inner t.2) then (start, inner t.2) :: more else more

def SameOddNames (x y : Text) : Prop :=
  ∃ xs ys, conditionTokens u dec x = some xs ∧ conditionTokens u dec y = some ys ∧
    oddNames dec fold 0 xs = oddNames dec fold 0 ys

end Agreement

variable {u : Unicode} {dec : Decimals} {fold : Fold dec} {a b : ConditionToken} {xs ys : List ConditionToken}
  {s t x y w : Text} {c d q : Char} {n : Nat} {ps : List (Piece Char ConditionKind)}

section Shapes

theorem quotedEnd_some (h : quotedEnd q t = some n) :
    ∃ b z, t = b ++ (q :: z) ∧ n = b.length + 1 ∧ (q = '\'' → Doubled b) := by
  fun_induction quotedEnd q t generalizing n with
  | case1 => cases h
  | case2 =>
      cases h
      exact ⟨[], [], rfl, rfl, fun _ => .nil⟩
  | case3 ds ih =>
      cases hq : quotedEnd q ds with
      | none =>
          rw [hq] at h
          cases h
          exact ⟨[], _, rfl, rfl, fun _ => .nil⟩
      | some m =>
          rw [hq] at h
          cases h
          obtain ⟨b, z, rfl, rfl, hb⟩ := ih hq
          refine ⟨q :: q :: b, z, rfl, rfl, fun hq => ?_⟩
          obtain rfl := hq
          exact .pair (hb rfl)
  | case4 d ds hd =>
      cases h
      exact ⟨[], d :: ds, rfl, rfl, fun _ => .nil⟩
  | case5 c cs hc ih =>
      obtain ⟨m, hm, rfl⟩ := Option.map_eq_some_iff.1 h
      obtain ⟨b, z, rfl, rfl, hb⟩ := ih hm
      refine ⟨c :: b, z, rfl, rfl, fun hq => .other ?_ (hb hq)⟩
      rw [← hq]
      exact hc

theorem numberRest_le : numberRest dec t ≤ t.length ∧
    ∀ d ∈ t.take (numberRest dec t), dec.holds d = true ∨ d = '.' := by
  fun_induction numberRest dec t with
  | case1 => simp
  | case2 c cs hc ih =>
      refine ⟨Nat.succ_le_succ ih.1, fun d hd => ?_⟩
      rw [List.take_succ_cons] at hd
      obtain rfl | hd := List.mem_cons.1 hd
      · simp only [Bool.or_eq_true, Bool.and_eq_true, decide_eq_true_eq] at hc
        exact hc.imp_right And.left
      · exact ih.2 d hd
  | case3 c cs hc => simp

def Shaped (dec : Decimals) (t : ConditionToken) : Prop :=
  match t.1 with
  | .literal => ∃ b, t.2 = '\'' :: (b ++ ['\'']) ∧ Doubled b
  | .quoted => ∃ b, t.2 = '"' :: (b ++ ['"'])
  | .identifier => IsIdentifier t.2
  | .number => IsNumber dec t.2
  | .operator => t.2 ∈ operators

theorem conditionStep_shaped {kind : ConditionKind} {rest : Text}
    (h : conditionStep u dec c rest = .ok (some kind, n)) :
    n ≤ rest.length ∧ Shaped dec (kind, c :: rest.take n) := by
  unfold conditionStep at h
  by_cases h1 : c = '\''
  · rw [if_pos h1] at h
    cases hq : quotedEnd '\'' rest with
    | none => simp [hq] at h
    | some m =>
        simp only [hq, Except.ok.injEq, Prod.mk.injEq, Option.some.injEq] at h
        obtain ⟨rfl, rfl⟩ := h
        obtain ⟨b, z, rfl, rfl, hb⟩ := quotedEnd_some hq
        refine ⟨by simp, b, ?_, hb rfl⟩
        simp [h1, List.take_append]
  rw [if_neg h1] at h
  by_cases h2 : c = '"'
  · rw [if_pos h2] at h
    cases hq : quotedEnd '"' rest with
    | none => simp [hq] at h
    | some m =>
        simp only [hq, Except.ok.injEq, Prod.mk.injEq, Option.some.injEq] at h
        obtain ⟨rfl, rfl⟩ := h
        obtain ⟨b, z, rfl, rfl, -⟩ := quotedEnd_some hq
        refine ⟨by simp, b, ?_⟩
        simp [h2, List.take_append]
  rw [if_neg h2] at h
  by_cases h3 : isWordStart c = true
  · simp only [if_pos h3, Except.ok.injEq, Prod.mk.injEq, Option.some.injEq] at h
    obtain ⟨rfl, rfl⟩ := h
    refine ⟨(List.takeWhile_prefix _).length_le, c, _, rfl, h3, fun d hd => ?_⟩
    rw [← List.prefix_iff_eq_take.1 (List.takeWhile_prefix isWordPart)] at hd
    exact List.mem_takeWhile_imp hd
  rw [if_neg h3] at h
  by_cases h4 : dec.holds c = true
  · simp only [if_pos h4, Except.ok.injEq, Prod.mk.injEq, Option.some.injEq] at h
    obtain ⟨rfl, rfl⟩ := h
    exact ⟨numberRest_le.1, c, _, rfl, h4, numberRest_le.2⟩
  rw [if_neg h4] at h
  by_cases h5 : (c :: rest).take 2 ∈ longOperators
  · simp only [if_pos h5, Except.ok.injEq, Prod.mk.injEq, Option.some.injEq] at h
    obtain ⟨rfl, rfl⟩ := h
    refine ⟨?_, List.mem_append_left _ h5⟩
    cases rest with
    | nil => simp [longOperators] at h5
    | cons d rest => simp
  rw [if_neg h5] at h
  by_cases h6 : c ∈ shortOperators
  · simp only [if_pos h6, Except.ok.injEq, Prod.mk.injEq, Option.some.injEq] at h
    obtain ⟨rfl, rfl⟩ := h
    exact ⟨Nat.zero_le _, List.mem_append_right _ (List.mem_map.2 ⟨c, h6, rfl⟩)⟩
  rw [if_neg h6] at h
  split at h <;> cases h

theorem scan_shaped (h : scan (conditionStep u dec) s = .ok ps) : ∀ t ∈ tokensOf ps, Shaped dec t := by
  induction ps generalizing s with
  | nil => simp [tokensOf]
  | cons p ps ih =>
      cases s with
      | nil => cases h
      | cons c cs =>
          obtain ⟨kind, more, qs, hstep, hscan, hp⟩ := scan_cons_ok.1 h
          cases hp
          intro t ht
          cases kind with
          | none => exact ih hscan t ht
          | some kind =>
              obtain rfl | ht := List.mem_cons.1 ht
              · exact (conditionStep_shaped hstep).2
              · exact ih hscan t ht

theorem conditionTokens_shaped (h : conditionTokens u dec x = some xs) : ∀ t ∈ xs, Shaped dec t := by
  unfold conditionTokens at h
  cases hs : scan (conditionStep u dec) x with
  | error e => simp [hs] at h
  | ok ps =>
      simp only [hs, Option.some.injEq] at h
      rw [← h]
      exact scan_shaped hs

end Shapes

section Decoding

def Follows (z : Text) : Prop := ∀ d ∈ z.head?, d = ' '

theorem follows_spaced (ts : List Text) : Follows (ts.flatMap (' ' :: ·)) := by
  cases ts <;> simp [Follows]

theorem literal_unique {b b' z z' : Text} (hb : Doubled b) (hb' : Doubled b') (hz : Follows z) (hz' : Follows z')
    (h : b ++ '\'' :: z = b' ++ '\'' :: z') : b = b' := by
  have hquote {z : Text} (hz : Follows z) : z.head? ≠ some '\'' := by
    intro hd
    have hsame := hz _ hd
    revert hsame
    decide
  have hlen := scanPlainString_of hb (hquote hz)
  rw [h, scanPlainString_of hb' (hquote hz'), Except.ok.injEq] at hlen
  exact List.append_inj_left h (by omega)

theorem spaceless_unique {b b' z z' : Text} (hb : ' ' ∉ b) (hb' : ' ' ∉ b') (hz : Follows z) (hz' : Follows z')
    (h : b ++ z = b' ++ z') : b = b' := by
  have htake {b z : Text} (hb : ' ' ∉ b) (hz : Follows z) : (b ++ z).takeWhile (· ≠ ' ') = b := by
    apply takeWhile_stop
    · intro d hd
      have hne : d ≠ ' ' := by
        rintro rfl
        exact hb hd
      simpa using hne
    · intro d hd
      simpa using hz d hd
  rw [← htake hb hz, h, htake hb' hz']

variable (dec) in
theorem wordStart_ascii (h : isWordStart c = true) :
    c.toNat < 128 ∧ c ≠ '\'' ∧ dec.holds c = false ∧ c ∉ shortOperators := by
  have hlt : c.toNat < 128 := by
    rw [isWordStart, Bool.or_eq_true, decide_eq_true_eq] at h
    obtain h | rfl := h
    · exact (isAlphanum_bounds (by rw [Char.isAlphanum, h, Bool.true_or])).2
    · decide
  rw [dec.ascii c hlt]
  have hall : ∀ n < 128, isWordStart (Char.ofNat n) = true →
      Char.ofNat n ≠ '\'' ∧ (Char.ofNat n).isDigit = false ∧ Char.ofNat n ∉ shortOperators := by
    decide
  have hc := hall c.toNat hlt
  rw [Char.ofNat_toNat] at hc
  exact ⟨hlt, hc h⟩

theorem operators_plain (t : Text) (h : t ∈ operators) : ' ' ∉ t ∧ ∃ c s, t = c :: s ∧ c ≠ '\'' ∧ c.toNat < 128 ∧
    c.isDigit = false ∧ isWordStart c = false := by
  have hall : ∀ t ∈ operators, ' ' ∉ t ∧ t ≠ [] ∧ t.head?.all (fun c => decide (c ≠ '\'' ∧ c.toNat < 128 ∧
      c.isDigit = false ∧ isWordStart c = false)) = true := by
    decide
  obtain ⟨hspace, hne, hhead⟩ := hall t h
  obtain ⟨c, s, rfl⟩ := List.exists_cons_of_ne_nil hne
  exact ⟨hspace, c, s, rfl, of_decide_eq_true hhead⟩

theorem holds_plain (h : dec.holds c = true) : c ≠ ' ' ∧ c ≠ '\'' := by
  constructor
  · rintro rfl
    rw [dec.ascii ' ' (by decide)] at h
    cases h
  · rintro rfl
    rw [dec.ascii '\'' (by decide)] at h
    cases h

variable (dec) in
theorem identifier_plain (h : IsIdentifier t) : ' ' ∉ t ∧ ¬ Odd dec t := by
  obtain ⟨c, s, rfl, hc, hs⟩ := h
  obtain ⟨-, hquote, hdigit, hop⟩ := wordStart_ascii dec hc
  have hspace : ' ' ∉ c :: s := by
    intro hm
    obtain rfl | hm := List.mem_cons.1 hm
    · revert hc
      decide
    · have hpart := hs _ hm
      revert hpart
      decide
  refine ⟨hspace, ?_⟩
  rintro (h | h | h | h)
  · exact hspace h
  · exact hquote (by simpa using h)
  · simp [hdigit] at h
  · obtain ⟨-, d, r, he, -, -, -, hstart⟩ := operators_plain _ h
    obtain ⟨rfl, -⟩ := List.cons.inj he
    rw [hc] at hstart
    cases hstart

theorem number_plain (h : IsNumber dec t) : ' ' ∉ t ∧ ∃ c s, t = c :: s ∧ c ≠ '\'' ∧ dec.holds c = true := by
  obtain ⟨c, s, rfl, hc, hs⟩ := h
  refine ⟨fun hm => ?_, c, s, rfl, (holds_plain hc).2, hc⟩
  obtain rfl | hm := List.mem_cons.1 hm
  · exact (holds_plain hc).1 rfl
  · obtain h | h := hs _ hm
    · exact (holds_plain h).1 rfl
    · cases h

variable (fold) in
/-- A token that is no odd name is a literal, or is written without a space and does not
start like a literal. -/
theorem render_plain (ha : Shaped dec a) (hodd : ¬ (a.1 = .quoted ∧ Odd dec (inner a.2))) (hk : a.1 ≠ .literal) :
    ' ' ∉ render dec fold a ∧ (render dec fold a).head? ≠ some '\'' := by
  obtain ⟨kind, t⟩ := a
  cases kind with
  | literal => exact absurd rfl hk
  | quoted =>
      have hno : ¬ Odd dec (inner t) := fun h => hodd ⟨rfl, h⟩
      exact ⟨fun h => hno (.inl h), fun h => hno (.inr (.inl h))⟩
  | identifier =>
      obtain ⟨hspace, hno⟩ := identifier_plain dec (fold.identifier t ha).1
      exact ⟨hspace, fun h => hno (.inr (.inl h))⟩
  | number =>
      have hr : render dec fold (.number, t) = t := fold.number t ha
      obtain ⟨hspace, c, s, rfl, hc, -⟩ := number_plain ha
      rw [hr]
      exact ⟨hspace, by simpa using hc⟩
  | operator =>
      have hr : render dec fold (.operator, t) = t := fold.operator t ha
      obtain ⟨hspace, c, s, rfl, hc, -⟩ := operators_plain t ha
      rw [hr]
      exact ⟨hspace, by simpa using hc⟩

variable (fold) in
theorem render_literal (ha : Shaped dec a) (hk : a.1 = .literal) :
    ∃ b, render dec fold a = '\'' :: (b ++ ['\'']) ∧ Doubled b := by
  obtain ⟨kind, t⟩ := a
  obtain rfl : kind = .literal := hk
  exact ha

/-- What starts a canonical form shows where its first token ends. -/
theorem render_unique {z z' : Text} (ha : Shaped dec a) (hb : Shaped dec b)
    (hoa : ¬ (a.1 = .quoted ∧ Odd dec (inner a.2))) (hob : ¬ (b.1 = .quoted ∧ Odd dec (inner b.2)))
    (hz : Follows z) (hz' : Follows z') (h : render dec fold a ++ z = render dec fold b ++ z') :
    render dec fold a = render dec fold b ∧ (a.1 = .literal ↔ b.1 = .literal) := by
  have hmixed {a b : ConditionToken} {z z' : Text} (ha : Shaped dec a) (hb : Shaped dec b)
      (hob : ¬ (b.1 = .quoted ∧ Odd dec (inner b.2))) (hz' : Follows z') (hka : a.1 = .literal) (hkb : b.1 ≠ .literal)
      (h : render dec fold a ++ z = render dec fold b ++ z') : False := by
    obtain ⟨t, ht, -⟩ := render_literal fold ha hka
    obtain ⟨-, hhead⟩ := render_plain fold hb hob hkb
    rw [ht] at h
    cases hr : render dec fold b with
    | nil =>
        rw [hr] at h
        have hquote := hz' '\'' (by rw [List.nil_append] at h; rw [← h]; rfl)
        cases hquote
    | cons c s =>
        rw [hr] at h hhead
        obtain ⟨rfl, -⟩ := List.cons.inj h
        exact hhead rfl
  by_cases hka : a.1 = .literal
  · by_cases hkb : b.1 = .literal
    · obtain ⟨t, ht, hdt⟩ := render_literal fold ha hka
      obtain ⟨t', ht', hdt'⟩ := render_literal fold hb hkb
      have heq : t ++ '\'' :: z = t' ++ '\'' :: z' := by
        rw [ht, ht'] at h
        simpa using h
      rw [ht, ht', literal_unique hdt hdt' hz hz' heq]
      exact ⟨rfl, iff_of_true hka hkb⟩
    · exact (hmixed ha hb hob hz' hka hkb h).elim
  · by_cases hkb : b.1 = .literal
    · exact (hmixed hb ha hoa hz hkb hka h.symm).elim
    · have hsame := spaceless_unique (render_plain fold ha hoa hka).1
        (render_plain fold hb hob hkb).1 hz hz' h
      exact ⟨hsame, iff_of_false hka hkb⟩

variable (fold) in
/-- No name that is not odd is written like a number or an operator. -/
theorem name_render (ha : Shaped dec a) (hn : IsName a) (hodd : ¬ (a.1 = .quoted ∧ Odd dec (inner a.2))) :
    ¬ Odd dec (render dec fold a) := by
  obtain ⟨kind, t⟩ := a
  obtain rfl | rfl : kind = .identifier ∨ kind = .quoted := hn
  · exact (identifier_plain dec (fold.identifier t ha).1).2
  · exact fun h => hodd ⟨rfl, h⟩

variable (fold) in
theorem other_render (ha : Shaped dec a) (hn : ¬ IsName a) : render dec fold a = a.2 ∧
    (a.1 = .number → a.2.head?.any dec.holds = true) ∧ (a.1 = .operator → a.2 ∈ operators) := by
  obtain ⟨kind, t⟩ := a
  cases kind with
  | literal => exact ⟨rfl, by simp, by simp⟩
  | quoted => exact absurd (.inr rfl) hn
  | identifier => exact absurd (.inl rfl) hn
  | number =>
      obtain ⟨-, c, s, rfl, -, hc⟩ := number_plain ha
      exact ⟨fold.number _ ha, fun _ => by simpa using hc, by simp⟩
  | operator => exact ⟨fold.operator t ha, by simp, fun _ => ha⟩

theorem operator_head (h : t ∈ operators) : t.head?.any dec.holds = false := by
  obtain ⟨-, c, s, rfl, -, hlt, hdigit, -⟩ := operators_plain t h
  simpa [dec.ascii c hlt] using hdigit

/-- Tokens that are written alike match, when neither is an odd name. -/
theorem matches_of_render (ha : Shaped dec a) (hb : Shaped dec b) (hoa : ¬ (a.1 = .quoted ∧ Odd dec (inner a.2)))
    (hob : ¬ (b.1 = .quoted ∧ Odd dec (inner b.2))) (hl : a.1 = .literal ↔ b.1 = .literal)
    (h : render dec fold a = render dec fold b) : Matches dec fold a b := by
  have hmixed {a b : ConditionToken} (ha : Shaped dec a) (hb : Shaped dec b)
      (hoa : ¬ (a.1 = .quoted ∧ Odd dec (inner a.2))) (hl : a.1 = .literal ↔ b.1 = .literal) (hna : IsName a)
      (hnb : ¬ IsName b) (h : render dec fold a = render dec fold b) : False := by
    have hno := name_render fold ha hna hoa
    obtain ⟨hr, hnumber, hoperator⟩ := other_render fold hb hnb
    rw [h, hr] at hno
    have hlit : b.1 ≠ .literal := fun hk => by
      obtain ha | ha := hna <;> rw [hl.2 hk] at ha <;> cases ha
    obtain ⟨kind, t⟩ := b
    cases kind with
    | literal => exact hlit rfl
    | quoted => exact hnb (.inr rfl)
    | identifier => exact hnb (.inl rfl)
    | number => exact hno (.inr (.inr (.inl (hnumber rfl))))
    | operator => exact hno (.inr (.inr (.inr (hoperator rfl))))
  by_cases hna : IsName a
  · by_cases hnb : IsName b
    · exact .inl ⟨hna, hnb, h⟩
    · exact (hmixed ha hb hoa hl hna hnb h).elim
  · by_cases hnb : IsName b
    · exact (hmixed hb ha hob hl.symm hnb hna h.symm).elim
    · refine .inr ⟨hna, ?_⟩
      obtain ⟨hra, hnumber, hoperator⟩ := other_render fold ha hna
      obtain ⟨hrb, hnumber', hoperator'⟩ := other_render fold hb hnb
      rw [hra, hrb] at h
      obtain ⟨ka, t⟩ := a
      obtain ⟨kb, t'⟩ := b
      obtain rfl : t = t' := h
      cases ka with
      | literal =>
          obtain rfl : kb = .literal := hl.1 rfl
          rfl
      | quoted => exact absurd (.inr rfl) hna
      | identifier => exact absurd (.inl rfl) hna
      | number =>
          cases kb with
          | literal => cases hl.2 rfl
          | quoted => exact absurd (.inr rfl) hnb
          | identifier => exact absurd (.inl rfl) hnb
          | number => rfl
          | operator =>
              have hhead := hnumber rfl
              rw [operator_head (hoperator' rfl)] at hhead
              cases hhead
      | operator =>
          cases kb with
          | literal => cases hl.2 rfl
          | quoted => exact absurd (.inr rfl) hnb
          | identifier => exact absurd (.inl rfl) hnb
          | number =>
              have hhead := hnumber' rfl
              rw [operator_head (hoperator rfl)] at hhead
              cases hhead
          | operator => rfl

end Decoding

section Canonical

def spaced (fold : Fold dec) (xs : List ConditionToken) : Text := (xs.map (render dec fold)).flatMap (' ' :: ·)

theorem spaced_cons : spaced fold (a :: xs) = ' ' :: (render dec fold a ++ spaced fold xs) := by
  simp [spaced]

theorem spaced_joined (h : xs ≠ []) : spaced fold xs = ' ' :: joined (xs.map (render dec fold)) := by
  cases xs with
  | nil => exact absurd rfl h
  | cons a xs => simp [spaced, joined]

theorem oddNames_ge {start : Nat} : ∀ o ∈ oddNames dec fold start xs, start ≤ o.1 := by
  induction xs generalizing start with
  | nil => simp [oddNames]
  | cons a xs ih =>
      intro o ho
      simp only [oddNames] at ho
      split at ho
      · obtain rfl | ho := List.mem_cons.1 ho
        · exact le_refl _
        · have hle := ih o ho
          omega
      · have hle := ih o ho
        omega

/-- An odd name that starts here starts here in the other form too. -/
theorem oddNames_head {start : Nat} (h : oddNames dec fold start (a :: xs) = oddNames dec fold start (b :: ys))
    (ha : a.1 = .quoted ∧ Odd dec (inner a.2)) : (b.1 = .quoted ∧ Odd dec (inner b.2)) ∧ inner a.2 = inner b.2 := by
  simp only [oddNames, if_pos ha] at h
  by_cases hb : b.1 = .quoted ∧ Odd dec (inner b.2)
  · rw [if_pos hb, List.cons.injEq, Prod.mk.injEq] at h
    exact ⟨hb, h.1.2⟩
  · rw [if_neg hb] at h
    have hmem : (start, inner a.2) ∈ oddNames dec fold (start + (render dec fold b).length + 1) ys := by
      rw [← h]
      exact List.mem_cons_self
    have hle := oddNames_ge _ hmem
    simp only at hle
    omega

theorem render_quoted (h : a.1 = .quoted) : render dec fold a = inner a.2 := by
  rw [render, h]

/-- Token by token, the canonical form is read back. -/
theorem matches_of_spaced {start : Nat} (hx : ∀ t ∈ xs, Shaped dec t) (hy : ∀ t ∈ ys, Shaped dec t)
    (h : spaced fold xs = spaced fold ys) (hodd : oddNames dec fold start xs = oddNames dec fold start ys) :
    List.Forall₂ (Matches dec fold) xs ys := by
  induction xs generalizing ys start with
  | nil =>
      cases ys with
      | nil => exact .nil
      | cons b ys => simp [spaced] at h
  | cons a xs ih =>
      cases ys with
      | nil => simp [spaced] at h
      | cons b ys =>
          rw [spaced_cons, spaced_cons, List.cons.injEq] at h
          have hsa := hx a List.mem_cons_self
          have hsb := hy b List.mem_cons_self
          obtain ⟨hr, hmatch⟩ : render dec fold a = render dec fold b ∧ Matches dec fold a b := by
            by_cases ha : a.1 = .quoted ∧ Odd dec (inner a.2)
            · obtain ⟨hb, hsame⟩ := oddNames_head hodd ha
              have hr : render dec fold a = render dec fold b := by rw [render_quoted ha.1, render_quoted hb.1, hsame]
              exact ⟨hr, .inl ⟨.inr ha.1, .inr hb.1, hr⟩⟩
            · have hb : ¬ (b.1 = .quoted ∧ Odd dec (inner b.2)) := fun hb => ha (oddNames_head hodd.symm hb).1
              obtain ⟨hr, hl⟩ := render_unique hsa hsb ha hb (follows_spaced _) (follows_spaced _) h.2
              exact ⟨hr, matches_of_render hsa hsb ha hb hl hr⟩
          have hodds : oddNames dec fold (start + (render dec fold a).length + 1) xs =
              oddNames dec fold (start + (render dec fold a).length + 1) ys := by
            have hrest := hodd
            simp only [oddNames, ← hr] at hrest
            by_cases ha : a.1 = .quoted ∧ Odd dec (inner a.2)
            · rw [if_pos ha, if_pos (oddNames_head hodd ha).1, List.cons.injEq] at hrest
              exact hrest.2
            · rwa [if_neg ha, if_neg fun hb => ha (oddNames_head hodd.symm hb).1] at hrest
          have hspaced : spaced fold xs = spaced fold ys := by
            rw [hr] at h
            exact List.append_cancel_left h.2
          exact .cons hmatch (ih (fun t ht => hx t (List.mem_cons_of_mem _ ht))
            (fun t ht => hy t (List.mem_cons_of_mem _ ht)) hspaced hodds)

theorem matches_render (hb : Shaped dec b) (h : Matches dec fold a b) :
    render dec fold a = render dec fold b ∧
      ((a.1 = .quoted ∧ Odd dec (inner a.2)) → (b.1 = .quoted ∧ Odd dec (inner b.2)) ∧ inner a.2 = inner b.2) := by
  obtain ⟨hna, hnb, hr⟩ | ⟨hna, rfl⟩ := h
  · refine ⟨hr, fun ⟨hk, hodd⟩ => ?_⟩
    rw [render_quoted hk] at hr
    obtain ⟨kb, t⟩ := b
    obtain rfl | rfl : kb = .identifier ∨ kb = .quoted := hnb
    · rw [hr] at hodd
      exact absurd hodd (identifier_plain dec (fold.identifier t hb).1).2
    · have hsame : inner a.2 = inner t := hr
      exact ⟨⟨rfl, hsame ▸ hodd⟩, hsame⟩
  · exact ⟨rfl, fun h => absurd (.inr h.1) hna⟩

theorem Matches.symm (h : Matches dec fold a b) : Matches dec fold b a := by
  obtain ⟨hna, hnb, hr⟩ | ⟨hna, rfl⟩ := h
  · exact .inl ⟨hnb, hna, hr.symm⟩
  · exact .inr ⟨hna, rfl⟩

theorem oddNames_of_matches {start : Nat} (hx : ∀ t ∈ xs, Shaped dec t) (hy : ∀ t ∈ ys, Shaped dec t)
    (h : List.Forall₂ (Matches dec fold) xs ys) : oddNames dec fold start xs = oddNames dec fold start ys := by
  induction h generalizing start with
  | nil => rfl
  | @cons a b xs ys hab _ ih =>
      have hsa := hx a List.mem_cons_self
      have hsb := hy b List.mem_cons_self
      obtain ⟨hr, hodd⟩ := matches_render hsb hab
      have hback := (matches_render hsa hab.symm).2
      simp only [oddNames, ← hr, ih (fun t ht => hx t (List.mem_cons_of_mem _ ht)) fun t ht =>
        hy t (List.mem_cons_of_mem _ ht)]
      by_cases ha : a.1 = .quoted ∧ Odd dec (inner a.2)
      · rw [if_pos ha, if_pos (hodd ha).1, (hodd ha).2]
      · rw [if_neg ha, if_neg fun hb => ha (hback hb).1]

theorem canonical_tokens (h : canonicalCondition u dec fold x = some w) : ∃ xs, conditionTokens u dec x = some xs ∧
    xs ≠ [] ∧ w = joined (xs.map (render dec fold)) := by
  obtain ⟨xs, hxs, h⟩ := Option.bind_eq_some_iff.1 h
  refine ⟨xs, hxs, ?_⟩
  simp only at h
  split at h
  · cases h
  · next hne =>
      cases h
      refine ⟨?_, rfl⟩
      rintro rfl
      exact hne rfl

end Canonical

/-- One canonical form for two texts means equal tokens, unless an odd quoted identifier
stands in one of them only. -/
theorem canonical_agrees_iff (hx : canonicalCondition u dec fold x = some w)
    (hy : canonicalCondition u dec fold y = some w) :
    Agrees u dec fold x y ↔ SameOddNames u dec fold x y := by
  obtain ⟨xs, hxs, hxne, hxw⟩ := canonical_tokens hx
  obtain ⟨ys, hys, hyne, hyw⟩ := canonical_tokens hy
  have hsx := conditionTokens_shaped hxs
  have hsy := conditionTokens_shaped hys
  constructor
  · rintro ⟨xs', ys', hxs', hys', h⟩
    rw [hxs] at hxs'
    rw [hys] at hys'
    cases hxs'
    cases hys'
    exact ⟨xs, ys, hxs, hys, oddNames_of_matches hsx hsy h⟩
  · rintro ⟨xs', ys', hxs', hys', h⟩
    rw [hxs] at hxs'
    rw [hys] at hys'
    cases hxs'
    cases hys'
    refine ⟨xs, ys, hxs, hys, matches_of_spaced hsx hsy ?_ h⟩
    rw [spaced_joined hxne, spaced_joined hyne, ← hxw, ← hyw]

section Example

theorem toLower_other (h : ¬ c.toNat < 128) : c.toLower = c := by
  apply dif_neg
  intro hz
  have hle : c.toNat ≤ 90 := UInt32.le_iff_toNat_le.1 hz.2
  omega

theorem lower_word (c : Char) : (isWordStart c = true → isWordStart c.toLower = true) ∧
    (isWordPart c = true → isWordPart c.toLower = true) := by
  by_cases hlt : c.toNat < 128
  · have hall : ∀ n < 128, (isWordStart (Char.ofNat n) = true → isWordStart (Char.ofNat n).toLower = true) ∧
        (isWordPart (Char.ofNat n) = true → isWordPart (Char.ofNat n).toLower = true) := by
      decide
    have hc := hall c.toNat hlt
    rwa [Char.ofNat_toNat] at hc
  · rw [toLower_other hlt]
    exact ⟨id, id⟩

theorem lower_decimal (h : dec.holds c = true ∨ c = '.') : c.toLower = c := by
  by_cases hlt : c.toNat < 128
  · have hall : ∀ n < 128, (Char.ofNat n).isDigit = true ∨ Char.ofNat n = '.' →
        (Char.ofNat n).toLower = Char.ofNat n := by
      decide
    have hc := hall c.toNat hlt
    rw [Char.ofNat_toNat] at hc
    rw [dec.ascii c hlt] at h
    exact hc h
  · exact toLower_other hlt

def Fold.lower (dec : Decimals) : Fold dec where
  apply t := t.map Char.toLower
  identifier t h := by
    obtain ⟨c, s, rfl, hc, hs⟩ := h
    refine ⟨⟨c.toLower, s.map Char.toLower, rfl, (lower_word c).1 hc, fun d hd => ?_⟩, by simp⟩
    obtain ⟨e, he, rfl⟩ := List.mem_map.1 hd
    exact (lower_word e).2 (hs e he)
  number t h := by
    obtain ⟨c, s, rfl, hc, hs⟩ := h
    rw [List.map_congr_left (g := id), List.map_id]
    intro d hd
    obtain rfl | hd := List.mem_cons.1 hd
    · exact lower_decimal (.inl hc)
    · exact lower_decimal (hs d hd)
  operator := by decide

def plainCheck : Text := "CHECK (attempt > 0)".toList

/-- A check of one quoted name, which enforces nothing. -/
def quotedCheck : Text := "CHECK (\"attempt > 0\")".toList

theorem canonical_agrees_iff_plain : Agrees .ascii .plain (.lower .plain) plainCheck "check(ATTEMPT>0)".toList := by
  have hleft : canonicalCondition .ascii .plain (.lower .plain) plainCheck = some "check ( attempt > 0 )".toList := by
    decide +kernel
  apply (canonical_agrees_iff hleft (by decide +kernel)).2
  have hnone : ∀ t ∈ [plainCheck, "check(ATTEMPT>0)".toList],
      (conditionTokens .ascii .plain t).map (oddNames .plain (.lower .plain) 0) = some [] := by
    decide +kernel
  obtain ⟨xs, hxs, hx⟩ := Option.map_eq_some_iff.1 (hnone _ List.mem_cons_self)
  obtain ⟨ys, hys, hy⟩ := Option.map_eq_some_iff.1 (hnone _ (List.mem_cons_of_mem _ List.mem_cons_self))
  exact ⟨xs, ys, hxs, hys, by rw [hx, hy]⟩

theorem quoted_collides :
    canonicalCondition .ascii .plain (.lower .plain) plainCheck = some "check ( attempt > 0 )".toList ∧
      canonicalCondition .ascii .plain (.lower .plain) quotedCheck = some "check ( attempt > 0 )".toList ∧
        ¬ Agrees .ascii .plain (.lower .plain) plainCheck quotedCheck := by
  refine ⟨by decide +kernel, by decide +kernel, ?_⟩
  rintro ⟨xs, ys, hxs, hys, h⟩
  have hlen : (conditionTokens .ascii .plain plainCheck).map List.length ≠
      (conditionTokens .ascii .plain quotedCheck).map List.length := by
    decide +kernel
  rw [hxs, hys] at hlen
  exact hlen (congrArg some (List.Forall₂.length_eq h))

end Example

end Migr8.Conditions
