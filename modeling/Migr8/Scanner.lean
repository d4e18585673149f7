import Migr8.SqlText

namespace Migr8.Scanner

open Characters Lib.Scanning SqlText

/-- The inside of a `'...'` literal: its quotes stand in pairs. -/
inductive Doubled : Text → Prop
  | nil : Doubled []
  | pair {t : Text} (h : Doubled t) : Doubled ('\'' :: '\'' :: t)
  | other {c : Char} {t : Text} (hc : c ≠ '\'') (h : Doubled t) : Doubled (c :: t)

/-- What may stand between the dollars of an opening tag. -/
def TagName (name : Text) : Prop := (∀ d ∈ name, isTagChar d = true) ∧ ∀ d ∈ name.head?, d.isDigit = false

def tagOf (name : Text) : Text := '$' :: (name ++ ['$'])

def Prefixed (c : Char) (rest : Text) : Prop :=
  ((c = 'n' ∨ c = 'N') ∧ (rest.take 2 = ['q', '\''] ∨ rest.take 2 = ['Q', '\''])) ∨
    ((c = 'q' ∨ c = 'Q' ∨ c = 'n' ∨ c = 'N') ∧ rest.head? = some '\'')

def isNumberChar (u : Unicode) (c : Char) : Bool := u.isDigit c || c = '.'

def Exponent (u : Unicode) (z : Text) : Prop :=
  ∃ e sign d x, z = e :: (sign ++ d :: x) ∧ (e = 'e' ∨ e = 'E') ∧ sign ∈ [[], ['+'], ['-']] ∧ u.isDigit d = true

inductive Numeral (u : Unicode) (z : Text) : Text → Prop
  | plain {t : Text} (ht : ∀ d ∈ t, isNumberChar u d = true) (hz : ∀ d ∈ z.head?, isNumberChar u d = false)
      (he : ¬ Exponent u z) : Numeral u z t
  | exponent {m sign ds : Text} {e : Char} (hm : ∀ d ∈ m, isNumberChar u d = true) (he : e = 'e' ∨ e = 'E')
      (hs : sign ∈ [[], ['+'], ['-']]) (hds : ds ≠ []) (hd : ∀ d ∈ ds, u.isDigit d = true)
      (hz : ∀ d ∈ z.head?, u.isDigit d = false) : Numeral u z (m ++ e :: (sign ++ ds))

def NumberStart (u : Unicode) (c : Char) (rest : Text) : Prop :=
  u.isDigit c = true ∨ (c = '.' ∧ rest.head?.any u.isDigit = true)

/-- What a step takes when the text goes on with `z` after it. -/
inductive Lexes (u : Unicode) (z : Text) : Char → Text → Option TokenKind → Prop
  | gap {c : Char} (h : isGap c = true) : Lexes u z c [] none
  | lineComment {t : Text} (ht : '\n' ∉ t) (hz : ∀ d ∈ z.head?, d = '\n') :
      Lexes u z '-' ('-' :: t) (some .comment)
  | blockComment {t : Text} (h : Closes ['*', '/'] t) :
      Lexes u z '/' ('*' :: (t ++ ['*', '/'])) (some .comment)
  | quotedIdent {t : Text} (h : '"' ∉ t) : Lexes u z '"' (t ++ ['"']) (some .quotedIdent)
  | plain {t : Text} (h : Doubled t) (hz : z.head? ≠ some '\'') : Lexes u z '\'' (t ++ ['\'']) (some .string)
  | dollar {name t : Text} (hn : TagName name) (h : Closes (tagOf name) t) :
      Lexes u z '$' (name ++ '$' :: (t ++ tagOf name)) (some .string)
  | alt {c d : Char} {t : Text} (hc : c = 'q' ∨ c = 'Q') (hd : d ∉ [' ', '\t', '\r', '\n'])
      (h : Closes [altCloser d, '\''] t) :
      Lexes u z c ('\'' :: d :: (t ++ [altCloser d, '\''])) (some .string)
  | nationalAlt {c q d : Char} {t : Text} (hc : c = 'n' ∨ c = 'N') (hq : q = 'q' ∨ q = 'Q')
      (hd : d ∉ [' ', '\t', '\r', '\n']) (h : Closes [altCloser d, '\''] t) :
      Lexes u z c (q :: '\'' :: d :: (t ++ [altCloser d, '\''])) (some .string)
  | national {c : Char} {t : Text} (hc : c = 'n' ∨ c = 'N') (h : Doubled t) (hz : z.head? ≠ some '\'') :
      Lexes u z c ('\'' :: (t ++ ['\''])) (some .string)
  | number {c : Char} {t : Text} (hc : NumberStart u c (t ++ z)) (hn : Numeral u z (c :: t)) :
      Lexes u z c t (some .number)
  | word {c : Char} {t : Text} (hc : isIdentStart u c = true) (hd : u.isDigit c = false)
      (ht : ∀ d ∈ t, isIdentPart u d = true) (hz : ∀ d ∈ z.head?, isIdentPart u d = false)
      (htag : c = '$' → dollarTag (t ++ z) = none) (hp : ¬ Prefixed c (t ++ z)) : Lexes u z c t (some .word)
  | punct {c : Char} (hc : isIdentStart u c = false) (hg : isGap c = false) (hn : ¬ NumberStart u c z)
      (hq : c ≠ '"' ∧ c ≠ '\'') (hm : c = '-' → z.head? ≠ some '-') (hs : c = '/' → z.head? ≠ some '*') :
      Lexes u z c [] (some .punct)

variable {u : Unicode} {c d : Char} {s t z z' rest name : Text} {kind : Option TokenKind} {n more : Nat}

section Shapes

theorem scanQuotedIdent_eq : scanQuotedIdent rest = .ok n ↔
    ∃ t z, rest = t ++ ('"' :: z) ∧ n = t.length + 1 ∧ '"' ∉ t := by
  unfold scanQuotedIdent
  constructor
  · intro h
    cases hf : find ['"'] rest with
    | none => simp [hf] at h
    | some m =>
        obtain ⟨t, z, rfl, rfl, hc⟩ := find_eq_some.1 hf
        rw [hf] at h
        cases h
        exact ⟨t, z, rfl, rfl, closes_singleton.1 hc⟩
  · rintro ⟨t, z, rfl, rfl, hq⟩
    have hf : find ['"'] (t ++ ('"' :: z)) = some t.length :=
      find_eq_some.2 ⟨t, z, rfl, rfl, closes_singleton.2 hq⟩
    rw [hf]

theorem scanPlainString_of (h : Doubled t) (hz : z.head? ≠ some '\'') :
    scanPlainString (t ++ ('\'' :: z)) = .ok (t.length + 1) := by
  induction h with
  | nil =>
      cases z with
      | nil => rfl
      | cons d z =>
          have hd : d ≠ '\'' := fun hd => hz (by rw [hd]; rfl)
          simp [scanPlainString, hd]
  | pair h ih => simp [scanPlainString, ih, Except.map]
  | other hc h ih => simp [scanPlainString, ih, hc, Except.map]

theorem scanPlainString_eq : scanPlainString rest = .ok n ↔
    ∃ t z, rest = t ++ ('\'' :: z) ∧ n = t.length + 1 ∧ Doubled t ∧ z.head? ≠ some '\'' := by
  constructor
  · intro h
    fun_induction scanPlainString rest generalizing n with
    | case1 => cases h
    | case2 cs ih =>
        cases hs : scanPlainString cs with
        | error e => simp [hs, Except.map] at h
        | ok m =>
            rw [hs] at h
            cases h
            obtain ⟨t, z, rfl, rfl, ht, hz⟩ := ih hs
            exact ⟨_, z, rfl, rfl, .pair ht, hz⟩
    | case3 cs hcs =>
        cases h
        refine ⟨[], cs, rfl, rfl, .nil, ?_⟩
        intro hh
        cases cs with
        | nil => cases hh
        | cons d cs =>
            cases hh
            exact hcs cs rfl
    | case4 c cs h1 h2 ih =>
        cases hs : scanPlainString cs with
        | error e => simp [hs, Except.map] at h
        | ok m =>
            rw [hs] at h
            cases h
            obtain ⟨t, z, rfl, rfl, ht, hz⟩ := ih hs
            exact ⟨c :: t, z, rfl, rfl, .other h2 ht, hz⟩
  · rintro ⟨t, z, rfl, rfl, ht, hz⟩
    exact scanPlainString_of ht hz

theorem takeWhile_stop {p : Char → Bool} (ht : ∀ d ∈ t, p d = true) (hz : ∀ d ∈ z.head?, p d = false) :
    (t ++ z).takeWhile p = t := by
  rw [List.takeWhile_append_of_pos ht]
  cases z with
  | nil => simp
  | cons d z => simp [hz d rfl]

theorem takeWhile_split (p : Char → Bool) (rest : Text) :
    ∃ t z, rest = t ++ z ∧ rest.takeWhile p = t ∧ (∀ d ∈ t, p d = true) ∧ ∀ d ∈ z.head?, p d = false := by
  refine ⟨rest.takeWhile p, rest.dropWhile p, (List.takeWhile_append_dropWhile).symm, rfl, ?_, ?_⟩
  · intro d hd
    exact List.mem_takeWhile_imp hd
  · intro d hd
    cases hz : rest.dropWhile p with
    | nil => simp [hz] at hd
    | cons e z =>
        rw [hz] at hd
        cases hd
        have hne : rest.dropWhile p ≠ [] := by simp [hz]
        have hnot := List.head_dropWhile_not p hne
        simpa [hz] using hnot

theorem head_not_digit (name : Text) : name.head?.all (!·.isDigit) = true ↔ ∀ d ∈ name.head?, d.isDigit = false := by
  cases name <;> simp

theorem dollarTag_eq : dollarTag rest = some name ↔ ∃ z, rest = name ++ '$' :: z ∧ TagName name := by
  unfold dollarTag
  constructor
  · intro h
    by_cases hcond : (rest.drop (rest.takeWhile isTagChar).length).head? = some '$' ∧
        (rest.takeWhile isTagChar).head?.all (!·.isDigit) = true
    · rw [if_pos hcond] at h
      cases h
      obtain ⟨t, z, hrest, ht, hall, _⟩ := takeWhile_split isTagChar rest
      rw [ht, hrest, List.drop_left] at hcond
      cases z with
      | nil => simp at hcond
      | cons d z =>
          obtain ⟨hd, hdigit⟩ := hcond
          cases hd
          rw [ht]
          exact ⟨z, hrest, hall, (head_not_digit t).1 hdigit⟩
    · rw [if_neg hcond] at h
      cases h
  · rintro ⟨z, rfl, hall, hdigit⟩
    have ht : (name ++ '$' :: z).takeWhile isTagChar = name :=
      takeWhile_stop hall (by
        rintro d hd
        cases hd
        decide)
    simp only [ht, List.drop_left]
    exact if_pos ⟨rfl, (head_not_digit name).2 hdigit⟩

theorem tryScanDollarQuoted_eq : tryScanDollarQuoted rest = .ok (some n) ↔
    ∃ name t z, rest = name ++ '$' :: (t ++ (tagOf name ++ z)) ∧ TagName name ∧ Closes (tagOf name) t ∧
      n = (name ++ '$' :: (t ++ tagOf name)).length := by
  have hdrop (name x : Text) : (name ++ '$' :: x).drop (name.length + 1) = x := by
    rw [List.drop_append, List.drop_eq_nil_of_le (Nat.le_succ _)]
    simp
  unfold tryScanDollarQuoted
  constructor
  · intro h
    cases hd : dollarTag rest with
    | none => simp [hd] at h
    | some name =>
        obtain ⟨x, rfl, hn⟩ := dollarTag_eq.1 hd
        simp only [hd, hdrop] at h
        cases hf : find ('$' :: (name ++ ['$'])) x with
        | none => simp [hf] at h
        | some m =>
            obtain ⟨t, z, rfl, rfl, hc⟩ := find_eq_some.1 hf
            rw [hf] at h
            cases h
            refine ⟨name, t, z, rfl, hn, hc, ?_⟩
            simp [tagOf]
            omega
  · rintro ⟨name, t, z, rfl, hn, hc, rfl⟩
    have hd : dollarTag (name ++ '$' :: (t ++ (tagOf name ++ z))) = some name := dollarTag_eq.2 ⟨_, rfl, hn⟩
    have hf : find (tagOf name) (t ++ (tagOf name ++ z)) = some t.length := find_eq_some.2 ⟨t, z, rfl, rfl, hc⟩
    simp only [hd, hdrop]
    unfold tagOf at hf
    rw [tagOf, hf]
    simp
    omega

theorem scanAltQuoted_eq : scanAltQuoted rest = .ok n ↔
    ∃ d t z, rest = d :: (t ++ ([altCloser d, '\''] ++ z)) ∧ d ∉ [' ', '\t', '\r', '\n'] ∧
      Closes [altCloser d, '\''] t ∧ n = (d :: (t ++ [altCloser d, '\''])).length := by
  constructor
  · intro h
    cases rest with
    | nil => cases h
    | cons d body =>
        by_cases hd : d ∈ [' ', '\t', '\r', '\n']
        · simp only [scanAltQuoted, if_pos hd] at h
          cases h
        · simp only [scanAltQuoted, if_neg hd] at h
          cases hf : find [altCloser d, '\''] body with
          | none => simp [hf] at h
          | some m =>
              obtain ⟨t, z, rfl, rfl, hc⟩ := find_eq_some.1 hf
              rw [hf] at h
              cases h
              refine ⟨d, t, z, rfl, hd, hc, ?_⟩
              simp
              omega
  · rintro ⟨d, t, z, rfl, hd, hc, rfl⟩
    have hf : find [altCloser d, '\''] (t ++ ([altCloser d, '\''] ++ z)) = some t.length :=
      find_eq_some.2 ⟨t, z, rfl, rfl, hc⟩
    simp only [scanAltQuoted, if_neg hd, hf]
    simp
    omega

theorem ofNat_toUpper : ∀ n < 128, ∀ x ∈ ['N', 'Q', '\''],
    (Char.ofNat n).toUpper = x ↔ Char.ofNat n = x ∨ Char.ofNat n = x.toLower := by
  have hall : ∀ n < 128, ['N', 'Q', '\''].all (fun x =>
      decide ((Char.ofNat n).toUpper = x ↔ Char.ofNat n = x ∨ Char.ofNat n = x.toLower)) = true := by
    decide
  intro n hn
  exact forall_of_all (hall n hn)

theorem literal_ascii : ∀ x ∈ ['N', 'Q', '\''], x.toNat < 128 ∧ x.toLower.toNat < 128 := forall_of_all (by decide)

theorem toUpper_iff {x : Char} (hx : x ∈ ['N', 'Q', '\'']) : d.toUpper = x ↔ d = x ∨ d = x.toLower := by
  by_cases hd : d.toNat < 128
  · have h := ofNat_toUpper d.toNat hd x hx
    rwa [Char.ofNat_toNat] at h
  · rw [toUpper_other hd]
    constructor
    · exact Or.inl
    · rintro (h | h)
      · exact h
      · exact absurd (h ▸ (literal_ascii x hx).2) hd

theorem upper_starts {x : Char} {p : Text} (hx : x ∈ ['N', 'Q', '\'']) :
    x :: p <+: u.upper (d :: s) ↔ (d = x ∨ d = x.toLower) ∧ p <+: u.upper s := by
  unfold Unicode.upper
  rw [List.flatMap_cons]
  by_cases hd : d.toNat < 128
  · rw [u.ascii_upper d hd, List.singleton_append, List.cons_prefix_cons, ← toUpper_iff hx, eq_comm]
  · obtain ⟨e, t, he, hne⟩ := u.upper_head d hd
    rw [he, List.cons_append, List.cons_prefix_cons]
    constructor
    · rintro ⟨rfl, _⟩
      exact absurd hx hne
    · rintro ⟨rfl | rfl, _⟩
      · exact absurd (literal_ascii _ hx).1 hd
      · exact absurd (literal_ascii _ hx).2 hd

theorem upper_nil {x : Char} {p : Text} : ¬ x :: p <+: u.upper [] := by simp [Unicode.upper]

theorem quote_prefix : ['\''] <+: u.upper s ↔ s.head? = some '\'' := by
  cases s with
  | nil => simp [upper_nil]
  | cons d s =>
      rw [upper_starts (by decide)]
      simp [show '\''.toLower = '\'' by decide]

theorem nq_iff : ['N', 'Q', '\''].isPrefixOf (u.upper ((c :: rest).take 3)) = true ↔
    (c = 'n' ∨ c = 'N') ∧ (rest.take 2 = ['q', '\''] ∨ rest.take 2 = ['Q', '\'']) := by
  rw [List.isPrefixOf_iff_prefix, List.take_succ_cons, upper_starts (by decide),
    show 'N'.toLower = 'n' by decide, or_comm]
  refine and_congr_right fun _ => ?_
  cases rest with
  | nil => simp [upper_nil]
  | cons d rest =>
      rw [List.take_succ_cons, upper_starts (by decide), show 'Q'.toLower = 'q' by decide, quote_prefix]
      cases rest with
      | nil => simp
      | cons e rest =>
          simp
          tauto

theorem q_iff : ['Q', '\''].isPrefixOf (u.upper ((c :: rest).take 3)) = true ↔
    (c = 'q' ∨ c = 'Q') ∧ rest.head? = some '\'' := by
  rw [List.isPrefixOf_iff_prefix, List.take_succ_cons, upper_starts (by decide), quote_prefix,
    show 'Q'.toLower = 'q' by decide, or_comm]
  cases rest <;> simp

theorem n_iff : ['N', '\''].isPrefixOf (u.upper ((c :: rest).take 3)) = true ↔
    (c = 'n' ∨ c = 'N') ∧ rest.head? = some '\'' := by
  rw [List.isPrefixOf_iff_prefix, List.take_succ_cons, upper_starts (by decide), quote_prefix,
    show 'N'.toLower = 'n' by decide, or_comm]
  cases rest <;> simp

theorem tryScanPrefixedString_none : tryScanPrefixedString u c rest = .ok none ↔ ¬ Prefixed c rest := by
  have hmap {m : Except Failure Nat} {f : Nat → Nat} : m.map (fun n => some (f n)) ≠ .ok none := by
    cases m <;> simp [Except.map]
  simp only [tryScanPrefixedString, nq_iff, q_iff, n_iff, Prefixed]
  split
  · next h =>
      exact ⟨fun hm => absurd hm hmap, fun hn => absurd (Or.inl h) hn⟩
  · split
    · next h =>
        have hc : c = 'q' ∨ c = 'Q' ∨ c = 'n' ∨ c = 'N' := by tauto
        exact ⟨fun hm => absurd hm hmap, fun hn => absurd (Or.inr ⟨hc, h.2⟩) hn⟩
    · split
      · next h =>
          have hc : c = 'q' ∨ c = 'Q' ∨ c = 'n' ∨ c = 'N' := by tauto
          exact ⟨fun hm => absurd hm hmap, fun hn => absurd (Or.inr ⟨hc, h.2⟩) hn⟩
      · simp only [true_iff]
        tauto

theorem map_some {m : Except Failure Nat} {f : Nat → Nat} :
    m.map (fun n => some (f n)) = .ok (some n) ↔ ∃ k, m = .ok k ∧ f k = n := by
  cases m <;> simp [Except.map]

theorem tryScanPrefixedString_some (h : tryScanPrefixedString u c rest = .ok (some n)) :
    ∃ t z, rest = t ++ z ∧ t.length = n ∧ Lexes u z c t (some .string) := by
  simp only [tryScanPrefixedString, nq_iff, q_iff, n_iff] at h
  split at h
  · next hc =>
      obtain ⟨k, hk, rfl⟩ := map_some.1 h
      obtain ⟨d, t, z, hr, hd, hclose, rfl⟩ := scanAltQuoted_eq.1 hk
      obtain ⟨q, hq, hr'⟩ : ∃ q, (q = 'q' ∨ q = 'Q') ∧ rest = q :: '\'' :: rest.drop 2 := by
        have htake := List.take_append_drop 2 rest
        obtain hq | hq := hc.2
        · exact ⟨'q', .inl rfl, by rw [hq] at htake; exact htake.symm⟩
        · exact ⟨'Q', .inr rfl, by rw [hq] at htake; exact htake.symm⟩
      rw [hr] at hr'
      refine ⟨_, z, by rw [hr']; simp, ?_, .nationalAlt hc.1 hq hd hclose⟩
      simp
      omega
  · split at h
    · next hc =>
        obtain ⟨k, hk, rfl⟩ := map_some.1 h
        obtain ⟨d, t, z, hr, hd, hclose, rfl⟩ := scanAltQuoted_eq.1 hk
        obtain ⟨x, rfl⟩ : ∃ x, rest = '\'' :: x := List.head?_eq_some_iff.1 hc.2
        rw [List.drop_one, List.tail_cons] at hr
        subst hr
        refine ⟨_, z, by simp, ?_, .alt hc.1 hd hclose⟩
        simp
        omega
    · split at h
      · next hc =>
          obtain ⟨k, hk, rfl⟩ := map_some.1 h
          obtain ⟨t, z, hr, rfl, ht, hz⟩ := scanPlainString_eq.1 hk
          obtain ⟨x, rfl⟩ : ∃ x, rest = '\'' :: x := List.head?_eq_some_iff.1 hc.2
          rw [List.drop_one, List.tail_cons] at hr
          subst hr
          refine ⟨_, z, by simp, ?_, .national hc.1 ht hz⟩
          simp
          omega
      · cases h

theorem isIdentStart_ascii (hc : c.toNat < 128) : isIdentStart u c = (c.isAlpha || c ∈ ['_', '$', '#', ':']) := by
  rw [isIdentStart, u.ascii_alpha c hc]

theorem isIdentPart_ascii (hc : c.toNat < 128) : isIdentPart u c = (c.isAlphanum || c ∈ ['_', '$', '#']) := by
  rw [isIdentPart, u.ascii_alnum c hc]

theorem map_ok {α β : Type} {m : Except Failure α} {f : α → β} {b : β} :
    m.map f = .ok b ↔ ∃ a, m = .ok a ∧ f a = b := by
  cases m <;> simp [Except.map]

theorem isNumberChar_ascii (hc : c.toNat < 128) : isNumberChar u c = (c.isDigit || c = '.') := by
  rw [isNumberChar, u.ascii_digit c hc]

def endAfter (u : Unicode) (n : Nat) : Text → Nat
  | [] => n
  | e :: rest =>
      let ds := (rest.drop (signOf rest).length).takeWhile u.isDigit
      if (e = 'e' ∨ e = 'E') ∧ ds ≠ [] then n + 1 + (signOf rest).length + ds.length else n

theorem scanNumber_split {m y : Text} (hm : ∀ d ∈ m, isNumberChar u d = true)
    (hy : ∀ d ∈ y.head?, isNumberChar u d = false) : scanNumber u (m ++ y) = endAfter u m.length y := by
  have htake : (m ++ y).takeWhile (fun c => u.isDigit c || decide (c = '.')) = m := takeWhile_stop hm hy
  unfold scanNumber endAfter
  simp only [htake, List.drop_left]
  cases y with
  | nil => rfl
  | cons e rest =>
      by_cases he : e = 'e' ∨ e = 'E' <;>
        by_cases hds : (rest.drop (signOf rest).length).takeWhile u.isDigit = [] <;> simp [he, hds]

/-- The sign that stands before a digit, or nothing. -/
theorem signOf_append {sign : Text} (hs : sign ∈ [[], ['+'], ['-']]) (hd : u.isDigit d = true) :
    signOf (sign ++ d :: s) = sign := by
  simp only [List.mem_cons, List.not_mem_nil, or_false] at hs
  obtain rfl | rfl | rfl := hs
  · have hplus : d ≠ '+' := by
      rintro rfl
      simp [u.ascii_digit '+' (by decide), Char.isDigit] at hd
    have hminus : d ≠ '-' := by
      rintro rfl
      simp [u.ascii_digit '-' (by decide), Char.isDigit] at hd
    simp [signOf, hplus, hminus]
  · rfl
  · rfl

theorem signOf_split (rest : Text) :
    signOf rest ∈ [[], ['+'], ['-']] ∧ rest = signOf rest ++ rest.drop (signOf rest).length := by
  cases rest with
  | nil => simp [signOf]
  | cons c x =>
      simp only [signOf]
      split
      · next hc => obtain rfl | rfl := hc <;> simp
      · simp

theorem exponent_cons {e : Char} (he : e = 'e' ∨ e = 'E') :
    Exponent u (e :: rest) ↔ (rest.drop (signOf rest).length).takeWhile u.isDigit ≠ [] := by
  constructor
  · rintro ⟨e', sign, d, x, hz, -, hs, hd⟩
    obtain ⟨rfl, rfl⟩ : e = e' ∧ rest = sign ++ d :: x := by simpa using hz
    have hsign := signOf_append (s := x) hs hd
    rw [hsign, List.drop_left]
    simp [hd]
  · intro h
    have hsign := signOf_split rest
    cases hr : rest.drop (signOf rest).length with
    | nil => simp [hr] at h
    | cons d x =>
        rw [hr] at h
        refine ⟨e, signOf rest, d, x, ?_, he, hsign.1, ?_⟩
        · rw [← hr, ← hsign.2]
        · by_contra hd
          simp [hd] at h

theorem tryScanLiteral_none (h : tryScanLiteral u c rest = .ok none) :
    (c = '$' → dollarTag rest = none) ∧ ¬ Prefixed c rest := by
  unfold tryScanLiteral at h
  by_cases hc : c = '$'
  · rw [if_pos hc] at h
    unfold tryScanDollarQuoted at h
    cases hd : dollarTag rest with
    | none =>
        rw [hd] at h
        exact ⟨fun _ => rfl, tryScanPrefixedString_none.1 h⟩
    | some name =>
        simp only [hd] at h
        split at h <;> cases h
  · rw [if_neg hc] at h
    exact ⟨fun h' => absurd h' hc, tryScanPrefixedString_none.1 h⟩

theorem tryScanLiteral_some (h : tryScanLiteral u c rest = .ok (some n)) :
    ∃ t z, rest = t ++ z ∧ t.length = n ∧ Lexes u z c t (some .string) := by
  unfold tryScanLiteral at h
  by_cases hc : c = '$'
  · rw [if_pos hc] at h
    cases hd : tryScanDollarQuoted rest with
    | error e => simp [hd, bind, Except.bind] at h
    | ok r =>
        rw [hd] at h
        cases r with
        | none => exact tryScanPrefixedString_some h
        | some m =>
            obtain ⟨name, t, z, rfl, hn, hclose, hm⟩ := tryScanDollarQuoted_eq.1 hd
            cases h
            subst hc
            exact ⟨_, z, by simp, hm.symm, .dollar hn hclose⟩
  · rw [if_neg hc] at h
    exact tryScanPrefixedString_some h

theorem Numeral.scanNumber (h : Numeral u z t) : scanNumber u (t ++ z) = t.length := by
  cases h with
  | plain ht hz he =>
      rw [scanNumber_split ht hz]
      unfold endAfter
      cases z with
      | nil => rfl
      | cons e rest =>
          by_cases hletter : e = 'e' ∨ e = 'E'
          · rw [exponent_cons hletter] at he
            simp only [he, and_false, if_false]
          · simp only [hletter, false_and, if_false]
  | @exponent m sign ds e hm he hs hds hd hz =>
      have hhead : ∀ d ∈ (e :: (sign ++ (ds ++ z))).head?, isNumberChar u d = false := by
        rintro d hd
        cases hd
        obtain rfl | rfl := he <;> rw [isNumberChar_ascii (by decide)] <;> decide
      have hds' : ∃ d x, ds = d :: x := by
        cases ds with
        | nil => exact absurd rfl hds
        | cons d x => exact ⟨d, x, rfl⟩
      obtain ⟨d, x, rfl⟩ := hds'
      have hsign : signOf (sign ++ (d :: x ++ z)) = sign := signOf_append hs (hd d (by simp))
      have htake : (d :: x ++ z).takeWhile u.isDigit = d :: x := takeWhile_stop hd hz
      rw [show m ++ e :: (sign ++ d :: x) ++ z = m ++ (e :: (sign ++ (d :: x ++ z))) by simp,
        scanNumber_split hm hhead]
      simp only [endAfter, hsign, List.drop_left, htake]
      rw [if_pos ⟨he, by simp⟩]
      simp
      omega

theorem scanNumber_numeral (s : Text) : ∃ t z, s = t ++ z ∧ t.length = scanNumber u s ∧ Numeral u z t := by
  obtain ⟨m, y, hs, -, hm, hy⟩ := takeWhile_split (isNumberChar u) s
  subst hs
  rw [scanNumber_split hm hy]
  unfold endAfter
  cases y with
  | nil => exact ⟨m, [], rfl, rfl, .plain hm hy (by rintro ⟨_, _, _, _, h, -⟩; cases h)⟩
  | cons e rest =>
      by_cases hx : (e = 'e' ∨ e = 'E') ∧ (rest.drop (signOf rest).length).takeWhile u.isDigit ≠ []
      · simp only [if_pos hx]
        obtain ⟨ds, z, hr, hds, hall, hz⟩ := takeWhile_split u.isDigit (rest.drop (signOf rest).length)
        have hsign := signOf_split rest
        rw [hds] at hx ⊢
        refine ⟨m ++ e :: (signOf rest ++ ds), z, ?_, by simp; omega, .exponent hm hx.1 hsign.1 hx.2 hall hz⟩
        rw [List.append_assoc, List.cons_append, List.append_assoc, ← hr, ← hsign.2]
      · simp only [if_neg hx]
        refine ⟨m, e :: rest, rfl, rfl, .plain hm hy ?_⟩
        intro he
        obtain ⟨e', sign, d, x, hz, hletter, -⟩ := id he
        cases hz
        exact hx ⟨hletter, (exponent_cons hletter).1 he⟩

theorem Numeral.nil_head (h : Numeral u z []) : ∀ d ∈ z.head?, isNumberChar u d = false := by
  generalize ht : [] = t at h
  cases h with
  | plain _ hz _ => exact hz
  | exponent _ _ _ _ _ _ => simp at ht

theorem numberStart_one (h : NumberStart u c rest) : 1 ≤ scanNumber u (c :: rest) := by
  have hc : isNumberChar u c = true := by
    obtain h | ⟨rfl, -⟩ := h
    · rw [isNumberChar, h, Bool.true_or]
    · rw [isNumberChar, decide_eq_true rfl, Bool.or_true]
  obtain ⟨t, z, hr, ht, hn⟩ := scanNumber_numeral (u := u) (c :: rest)
  cases t with
  | cons d t => rw [← ht]; simp
  | nil =>
      have hfalse := hn.nil_head c (by rw [← List.nil_append z, ← hr]; rfl)
      rw [hc] at hfalse
      cases hfalse

theorem next_ok (h : next u c rest = .ok (kind, more)) :
    ∃ t z, rest = t ++ z ∧ t.length = more ∧ Lexes u z c t kind := by
  unfold next at h
  by_cases hgap : isGap c = true
  · rw [if_pos hgap] at h
    cases h
    exact ⟨[], rest, rfl, rfl, .gap hgap⟩
  rw [if_neg hgap] at h
  by_cases hline : c = '-' ∧ rest.head? = some '-'
  · rw [if_pos hline] at h
    obtain ⟨rfl, hhead⟩ := hline
    obtain ⟨x, rfl⟩ := List.head?_eq_some_iff.1 hhead
    obtain ⟨t, z, rfl, ht, hall, hz⟩ := takeWhile_split (fun d => d ≠ '\n') x
    have htake : ('-' :: (t ++ z)).takeWhile (fun d => d ≠ '\n') = '-' :: t := by
      rw [List.takeWhile_cons_of_pos (by decide), ht]
    rw [htake] at h
    cases h
    refine ⟨'-' :: t, z, rfl, rfl, .lineComment ?_ ?_⟩
    · intro hn
      simpa using hall '\n' hn
    · intro e he
      simpa using hz e he
  rw [if_neg hline] at h
  by_cases hblock : c = '/' ∧ rest.head? = some '*'
  · rw [if_pos hblock] at h
    obtain ⟨rfl, hhead⟩ := hblock
    obtain ⟨x, rfl⟩ := List.head?_eq_some_iff.1 hhead
    rw [List.drop_one, List.tail_cons] at h
    cases hf : find ['*', '/'] x with
    | none => simp [hf] at h
    | some m =>
        obtain ⟨t, z, rfl, rfl, hclose⟩ := find_eq_some.1 hf
        rw [hf] at h
        cases h
        exact ⟨_, z, by simp, by simp; omega, .blockComment hclose⟩
  rw [if_neg hblock] at h
  by_cases hquoted : c = '"'
  · rw [if_pos hquoted] at h
    subst hquoted
    obtain ⟨m, hm, he⟩ := map_ok.1 h
    cases he
    obtain ⟨t, z, rfl, rfl, hq⟩ := scanQuotedIdent_eq.1 hm
    exact ⟨_, z, by simp, by simp, .quotedIdent hq⟩
  rw [if_neg hquoted] at h
  by_cases hplain : c = '\''
  · rw [if_pos hplain] at h
    subst hplain
    obtain ⟨m, hm, he⟩ := map_ok.1 h
    cases he
    obtain ⟨t, z, rfl, rfl, hd, hz⟩ := scanPlainString_eq.1 hm
    exact ⟨_, z, by simp, by simp, .plain hd hz⟩
  rw [if_neg hplain] at h
  obtain ⟨literal, hliteral, h⟩ := map_ok.1 h
  cases literal with
  | some m =>
      cases h
      exact tryScanLiteral_some hliteral
  | none =>
      obtain ⟨htag, hprefix⟩ := tryScanLiteral_none hliteral
      unfold literalOr nextPlain at h
      simp only at h
      by_cases hnumber : u.isDigit c = true ∨ (c = '.' ∧ rest.head?.any u.isDigit = true)
      · rw [if_pos hnumber] at h
        cases h
        obtain ⟨t, z, hr, ht, hn⟩ := scanNumber_numeral (u := u) (c :: rest)
        have hone := numberStart_one hnumber
        cases t with
        | nil =>
            rw [← ht] at hone
            simp at hone
        | cons d t =>
            obtain ⟨rfl, rfl⟩ : c = d ∧ rest = t ++ z := by simpa using hr
            exact ⟨t, z, rfl, by rw [← ht]; rfl, .number hnumber hn⟩
      rw [if_neg hnumber] at h
      have hdigit : u.isDigit c = false := by
        cases hd : u.isDigit c with
        | false => rfl
        | true => exact absurd (Or.inl hd) hnumber
      by_cases hword : isIdentStart u c = true
      · rw [if_pos hword] at h
        obtain ⟨t, z, rfl, ht, hall, hz⟩ := takeWhile_split (isIdentPart u) rest
        rw [ht] at h
        cases h
        exact ⟨t, z, rfl, rfl, .word hword hdigit hall hz htag hprefix⟩
      rw [if_neg hword] at h
      cases h
      refine ⟨[], rest, rfl, rfl, .punct ?_ ?_ hnumber ⟨hquoted, hplain⟩ ?_ ?_⟩
      · simpa using hword
      · simpa using hgap
      · exact fun hm hz => hline ⟨hm, hz⟩
      · exact fun hs hz => hblock ⟨hs, hz⟩

def isLead (c : Char) : Bool := isGap c || c ∈ ['-', '/', '"', '\'']

theorem lead_ascii : ∀ c ∈ [' ', '\t', '\r', '\n', '\x0c', '\x0b', '-', '/', '"', '\''],
    c.toNat < 128 ∧ (c.isAlpha || c ∈ ['_', '$', '#', ':']) = false ∧ c.isDigit = false ∧ c ≠ '.' :=
  forall_of_all (by decide)

theorem lead_plain (rest : Text) (h : isLead c = true) : isIdentStart u c = false ∧ ¬ NumberStart u c rest := by
  have hmem : c ∈ [' ', '\t', '\r', '\n', '\x0c', '\x0b', '-', '/', '"', '\''] := by
    simp only [isLead, isGap, Bool.or_eq_true, decide_eq_true_eq] at h
    simp only [List.mem_cons, List.not_mem_nil, or_false] at h ⊢
    tauto
  obtain ⟨hlt, hstart, hdigit, hdot⟩ := lead_ascii c hmem
  refine ⟨by rw [isIdentStart_ascii hlt, hstart], ?_⟩
  rintro (h | h)
  · rw [u.ascii_digit c hlt, hdigit] at h
    cases h
  · exact hdot h.1

theorem not_lead (h : isIdentStart u c = true ∨ NumberStart u c z) : isLead c = false := by
  cases hl : isLead c with
  | false => rfl
  | true =>
      obtain ⟨hi, hn⟩ := lead_plain (u := u) z hl
      rw [hi] at h
      obtain h | h := h
      · cases h
      · exact absurd h hn

theorem next_literal (h : isGap c = false) (hq : c ≠ '"') (hp : c ≠ '\'') (hm : ¬ (c = '-' ∧ rest.head? = some '-'))
    (hs : ¬ (c = '/' ∧ rest.head? = some '*')) :
    next u c rest = (tryScanLiteral u c rest).map (literalOr u c rest) := by
  unfold next
  rw [if_neg (by simp [h]), if_neg hm, if_neg hs, if_neg hq, if_neg hp]

theorem next_of_not_lead (h : isLead c = false) :
    next u c rest = (tryScanLiteral u c rest).map (literalOr u c rest) := by
  simp only [isLead, Bool.or_eq_false_iff, decide_eq_false_iff_not, List.mem_cons, List.not_mem_nil, or_false,
    not_or] at h
  exact next_literal h.1 h.2.2.2.1 h.2.2.2.2 (fun hc => h.2.1 hc.1) (fun hc => h.2.2.1 hc.1)

theorem tryScanLiteral_of_none (htag : c = '$' → dollarTag rest = none) (hp : ¬ Prefixed c rest) :
    tryScanLiteral u c rest = .ok none := by
  have hprefixed := tryScanPrefixedString_none (u := u).2 hp
  unfold tryScanLiteral
  by_cases hc : c = '$'
  · rw [if_pos hc, tryScanDollarQuoted, htag hc]
    exact hprefixed
  · rwa [if_neg hc]

theorem tryScanLiteral_of_prefixed (hc : c ≠ '$') : tryScanLiteral u c rest = tryScanPrefixedString u c rest := by
  unfold tryScanLiteral
  rw [if_neg hc]

end Shapes

section Step

theorem letter_not_lead {c : Char} (hc : c = 'q' ∨ c = 'Q' ∨ c = 'n' ∨ c = 'N') :
    isLead c = false ∧ c ≠ '$' := by
  obtain rfl | rfl | rfl | rfl := hc <;> decide

theorem letter_ascii : ∀ c ∈ ['q', 'Q', 'n', 'N', '$'],
    c.toNat < 128 ∧ (c.isAlpha || c ∈ ['_', '$', '#', ':']) = true ∧ c.isDigit = false ∧ c ≠ '.' :=
  forall_of_all (by decide)

theorem number_not_letter (h : NumberStart u c rest) : c ∉ ['q', 'Q', 'n', 'N', '$'] := by
  intro hc
  obtain ⟨hlt, -, hdigit, hdot⟩ := letter_ascii c hc
  obtain h | h := h
  · rw [u.ascii_digit c hlt, hdigit] at h
    cases h
  · exact hdot h.1

theorem punct_not_letter (h : isIdentStart u c = false) : c ∉ ['q', 'Q', 'n', 'N', '$'] := by
  intro hc
  obtain ⟨hlt, hstart, -, -⟩ := letter_ascii c hc
  rw [isIdentStart_ascii hlt, hstart] at h
  cases h

theorem no_literal (h : c ∉ ['q', 'Q', 'n', 'N', '$']) : tryScanLiteral u c rest = .ok none := by
  simp only [List.mem_cons, List.not_mem_nil, or_false, not_or] at h
  apply tryScanLiteral_of_none
  · exact fun hc => absurd hc h.2.2.2.2
  · unfold Prefixed
    tauto

theorem Lexes.next_eq (h : Lexes u z c t kind) : next u c (t ++ z) = .ok (kind, t.length) := by
  cases h with
  | gap h => exact if_pos h
  | @lineComment t ht hz =>
      have htake : ('-' :: t ++ z).takeWhile (fun d => d ≠ '\n') = '-' :: t := by
        apply takeWhile_stop
        · intro d hd
          rw [List.mem_cons] at hd
          obtain rfl | hd := hd
          · decide
          · exact decide_eq_true fun he => ht (he ▸ hd)
        · intro d hd
          simp [hz d hd]
      unfold next
      rw [if_neg (by decide), if_pos ⟨rfl, rfl⟩, htake]
  | @blockComment t h =>
      have hf : find ['*', '/'] (t ++ (['*', '/'] ++ z)) = some t.length := find_eq_some.2 ⟨t, z, rfl, rfl, h⟩
      unfold next
      rw [if_neg (by decide), if_neg (by simp), if_pos ⟨rfl, rfl⟩]
      simp only [List.cons_append, List.drop_one, List.tail_cons, List.append_assoc] at hf ⊢
      rw [hf]
      simp
      omega
  | @quotedIdent t h =>
      have hs : scanQuotedIdent (t ++ ('"' :: z)) = .ok (t.length + 1) := scanQuotedIdent_eq.2 ⟨t, z, rfl, rfl, h⟩
      unfold next
      rw [if_neg (by decide), if_neg (by simp), if_neg (by simp), if_pos rfl, List.append_assoc]
      simp [hs, Except.map]
  | @plain t h hz =>
      have hs := scanPlainString_of h hz
      unfold next
      rw [if_neg (by decide), if_neg (by simp), if_neg (by simp), if_neg (by decide), if_pos rfl, List.append_assoc]
      simp [hs, Except.map]
  | @dollar name t hn h =>
      have hs : tryScanDollarQuoted (name ++ '$' :: (t ++ (tagOf name ++ z))) = .ok (some _) :=
        tryScanDollarQuoted_eq.2 ⟨name, t, z, rfl, hn, h, rfl⟩
      rw [next_of_not_lead (by decide)]
      unfold tryScanLiteral
      rw [if_pos rfl]
      simp only [List.append_assoc, List.cons_append]
      rw [hs]
      rfl
  | @alt c d t hc hd h =>
      have hs : scanAltQuoted (d :: (t ++ ([altCloser d, '\''] ++ z))) = .ok _ :=
        scanAltQuoted_eq.2 ⟨d, t, z, rfl, hd, h, rfl⟩
      have hl := letter_not_lead (c := c) (by tauto)
      have hn : ¬ (c = 'n' ∨ c = 'N') := by obtain rfl | rfl := hc <;> decide
      rw [next_of_not_lead hl.1, tryScanLiteral_of_prefixed hl.2]
      simp only [tryScanPrefixedString, nq_iff, q_iff]
      rw [if_neg fun h => hn h.1, if_pos ⟨hc, rfl⟩]
      simp only [List.cons_append, List.append_assoc, List.drop_one, List.tail_cons] at hs ⊢
      rw [hs]
      simp [Except.map, literalOr]
      omega
  | @nationalAlt c q d t hc hq hd h =>
      have hs : scanAltQuoted (d :: (t ++ ([altCloser d, '\''] ++ z))) = .ok _ :=
        scanAltQuoted_eq.2 ⟨d, t, z, rfl, hd, h, rfl⟩
      have hl := letter_not_lead (c := c) (by tauto)
      have htake : ['q', '\''] = [q, '\''] ∨ ['Q', '\''] = [q, '\''] := by obtain rfl | rfl := hq <;> simp
      rw [next_of_not_lead hl.1, tryScanLiteral_of_prefixed hl.2]
      simp only [tryScanPrefixedString, nq_iff]
      rw [if_pos ⟨hc, htake.imp Eq.symm Eq.symm⟩]
      simp only [List.cons_append, List.append_assoc, List.drop_succ_cons, List.drop_zero] at hs ⊢
      rw [hs]
      simp [Except.map, literalOr]
      omega
  | @national c t hc h hz =>
      have hs := scanPlainString_of h hz
      have hl := letter_not_lead (c := c) (by tauto)
      have hq : ¬ (c = 'q' ∨ c = 'Q') := by obtain rfl | rfl := hc <;> decide
      rw [next_of_not_lead hl.1, tryScanLiteral_of_prefixed hl.2]
      simp only [tryScanPrefixedString, nq_iff, q_iff, n_iff]
      rw [if_neg (by simp), if_neg fun h => hq h.1, if_pos ⟨hc, rfl⟩]
      simp only [List.cons_append, List.append_assoc, List.drop_one, List.tail_cons, List.nil_append]
      rw [hs]
      simp [Except.map, literalOr]
      omega
  | @number c t hc hn =>
      have hnumber : u.isDigit c = true ∨ (c = '.' ∧ (t ++ z).head?.any u.isDigit = true) := hc
      have hs : scanNumber u (c :: (t ++ z)) = t.length + 1 := hn.scanNumber
      rw [next_of_not_lead (not_lead (.inr hc)), no_literal (number_not_letter hc)]
      simp only [Except.map, literalOr, nextPlain, if_pos hnumber, hs, Nat.add_sub_cancel]
  | @word c t hc hd ht hz htag hp =>
      have hn : ¬ (u.isDigit c = true ∨ (c = '.' ∧ (t ++ z).head?.any u.isDigit = true)) := by
        rintro (h | h)
        · rw [hd] at h
          cases h
        · rw [h.1, isIdentStart_ascii (by decide)] at hc
          cases hc
      rw [next_of_not_lead (not_lead (z := []) (.inl hc)), tryScanLiteral_of_none htag hp]
      simp only [Except.map, literalOr, nextPlain, if_neg hn, if_pos hc, takeWhile_stop ht hz]
  | @punct c hc hg hn hq hm hs =>
      have hnumber : ¬ (u.isDigit c = true ∨ (c = '.' ∧ z.head?.any u.isDigit = true)) := hn
      rw [List.nil_append, next_literal hg hq.1 hq.2 (fun h => hm h.1 h.2) fun h => hs h.1 h.2,
        no_literal (punct_not_letter hc)]
      simp only [Except.map, literalOr, nextPlain, if_neg hnumber, hc]
      rfl

theorem next_iff : next u c (t ++ z) = .ok (kind, t.length) ↔ Lexes u z c t kind := by
  constructor
  · intro h
    obtain ⟨t', z', he, hlen, hl⟩ := next_ok h
    obtain ⟨rfl, rfl⟩ := List.append_inj he hlen.symm
    exact hl
  · exact Lexes.next_eq

theorem next_bounded (u : Unicode) : Bounded (next u) := by
  intro c rest kind more h
  obtain ⟨t, z, rfl, rfl, -⟩ := next_ok h
  simp

def Neutral (u : Unicode) (d : Char) : Prop := isIdentPart u d = false ∧ d ∉ ['\'', '.', '*']

theorem Neutral.not_digit (h : Neutral u d) : u.isDigit d = false := by
  cases hd : u.isDigit d with
  | false => rfl
  | true =>
      have ha := h.1
      rw [isIdentPart, u.digit_alnum d hd] at ha
      cases ha

theorem Neutral.not_numberChar (h : Neutral u d) : isNumberChar u d = false := by
  have hdot : d ≠ '.' := by
    rintro rfl
    exact h.2 (by simp)
  rw [isNumberChar, h.not_digit, Bool.false_or, decide_eq_false hdot]

theorem Numeral.follow (h : Numeral u z t) (hz : z'.head? = z.head? ∨ ∀ d ∈ z'.head?, Neutral u d)
    (he : Exponent u z' → Exponent u z) : Numeral u z' t := by
  cases h with
  | plain ht hend hexp =>
      refine .plain ht ?_ fun h => hexp (he h)
      obtain hz | hz := hz
      · rw [hz]
        exact hend
      · exact fun d hd => (hz d hd).not_numberChar
  | exponent hm hletter hs hds hd hend =>
      refine .exponent hm hletter hs hds hd ?_
      obtain hz | hz := hz
      · rw [hz]
        exact hend
      · exact fun d hd => (hz d hd).not_digit

theorem Numeral.dot (h : Numeral u z ['.']) : ¬ z.head?.any u.isDigit = true := by
  intro hd
  generalize ht : ['.'] = t at h
  cases h with
  | plain _ hz _ =>
      cases z with
      | nil => simp at hd
      | cons d z =>
          have hc : isNumberChar u d = true := by
            rw [isNumberChar, show u.isDigit d = true from hd, Bool.true_or]
          simp [hz d rfl] at hc
  | @exponent m sign ds e _ he _ hds _ _ =>
      cases m with
      | nil =>
          obtain rfl | rfl := he <;> simp at ht
      | cons d m => simp at ht

theorem tagChar_part (h : isTagChar d = true) : isIdentPart u d = true := by
  have hlt : d.toNat < 128 := by
    rw [isTagChar, Bool.or_eq_true] at h
    obtain h | h := h
    · exact (isAlphanum_bounds h).2
    · obtain rfl := of_decide_eq_true h
      decide
  rw [isIdentPart_ascii hlt]
  rw [isTagChar, Bool.or_eq_true] at h
  obtain h | h := h
  · rw [h, Bool.true_or]
  · obtain rfl := of_decide_eq_true h
    decide

/-- What follows a word never makes its dollar open a tag. -/
theorem dollarTag_follow (hz : ∀ d ∈ z'.head?, isIdentPart u d = false) (h : dollarTag (t ++ z) = none) :
    dollarTag (t ++ z') = none := by
  cases hd : dollarTag (t ++ z') with
  | none => rfl
  | some name =>
      obtain ⟨x, hx, hn⟩ := dollarTag_eq.1 hd
      have hdollar : isIdentPart u '$' = true := by
        rw [isIdentPart_ascii (by decide)]
        decide
      obtain ⟨y, rfl, rfl⟩ | ⟨y, rfl, hy⟩ := List.append_eq_append_iff.1 hx
      · cases y with
        | nil => simpa [hdollar] using hz '$' rfl
        | cons e y => simpa [tagChar_part (hn.1 e (by simp))] using hz e rfl
      · cases y with
        | nil =>
            rw [List.nil_append] at hy
            simpa [← hy, hdollar] using hz '$'
        | cons e y =>
            obtain ⟨rfl, -⟩ : '$' = e ∧ _ := by simpa using hy
            have hsome : dollarTag (name ++ '$' :: y ++ z) = some name :=
              dollarTag_eq.2 ⟨y ++ z, by simp, hn⟩
            rw [hsome] at h
            cases h

theorem prefixed_cons : Prefixed c (d :: rest) ↔
    ((c = 'n' ∨ c = 'N') ∧ (d = 'q' ∨ d = 'Q') ∧ rest.head? = some '\'') ∨
      ((c = 'q' ∨ c = 'Q' ∨ c = 'n' ∨ c = 'N') ∧ d = '\'') := by
  unfold Prefixed
  cases rest <;> simp
  tauto

theorem quote_not_part : isIdentPart u '\'' = false := by
  rw [isIdentPart_ascii (by decide)]
  decide

theorem letter_part (hd : d = 'q' ∨ d = 'Q') : isIdentPart u d = true := by
  obtain rfl | rfl := hd <;> rw [isIdentPart_ascii (by decide)] <;> decide

theorem quote_head (hz : z'.head? = z.head? ∨ ∀ d ∈ z'.head?, Neutral u d) (h : z'.head? = some '\'') :
    z.head? = some '\'' := by
  obtain hz | hz := hz
  · rw [← hz, h]
  · exact absurd (by simp) (hz '\'' h).2

theorem prefixed_follow (ht : ∀ d ∈ t, isIdentPart u d = true) (hz : z'.head? = z.head? ∨ ∀ d ∈ z'.head?, Neutral u d)
    (hend : ∀ d ∈ z'.head?, isIdentPart u d = false) (h : ¬ Prefixed c (t ++ z)) : ¬ Prefixed c (t ++ z') := by
  intro hp
  cases t with
  | nil =>
      cases z' with
      | nil => simp [Prefixed] at hp
      | cons d z' =>
          obtain ⟨_, hd, _⟩ | ⟨hc, rfl⟩ := prefixed_cons.1 hp
          · have hpart := hend d rfl
            rw [letter_part hd] at hpart
            cases hpart
          · exact h (.inr ⟨hc, quote_head hz rfl⟩)
  | cons a t =>
      have ha := ht a (by simp)
      obtain ⟨hc, hq, hhead⟩ | ⟨-, rfl⟩ := prefixed_cons.1 hp
      · cases t with
        | nil => exact h (prefixed_cons.2 (.inl ⟨hc, hq, quote_head hz hhead⟩))
        | cons b t =>
            cases hhead
            simp [quote_not_part] at ht
      · simp [quote_not_part] at ha

/-- A step goes on the same when nothing that follows it is asked for. -/
theorem Lexes.follow (h : Lexes u z c t kind) (hz : z'.head? = z.head? ∨ ∀ d ∈ z'.head?, Neutral u d)
    (hdash : c = '-' → z'.head? = z.head? ∨ if t = [] then z'.head? ≠ some '-' else ∀ d ∈ z'.head?, d = '\n')
    (he : Exponent u z' → Exponent u z) : Lexes u z' c t kind := by
  have hquote {z₀ : Text} (h : z₀ = z) (hq : z.head? ≠ some '\'') : z'.head? ≠ some '\'' :=
    fun hq' => hq (quote_head hz hq')
  cases h with
  | gap h => exact .gap h
  | lineComment ht hend =>
      refine .lineComment ht ?_
      obtain hd | hd := hdash rfl
      · rw [hd]
        exact hend
      · simpa using hd
  | blockComment h => exact .blockComment h
  | quotedIdent h => exact .quotedIdent h
  | plain h hq => exact .plain h (hquote rfl hq)
  | dollar hn h => exact .dollar hn h
  | alt hc hd h => exact .alt hc hd h
  | nationalAlt hc hq hd h => exact .nationalAlt hc hq hd h
  | national hc h hq => exact .national hc h (hquote rfl hq)
  | number hc hn =>
      refine .number ?_ (hn.follow hz he)
      obtain hc | ⟨rfl, hc⟩ := hc
      · exact .inl hc
      · cases t with
        | cons a t => exact .inr ⟨rfl, hc⟩
        | nil => exact absurd hc (hn.dot)
  | word hc hd ht hend htag hp =>
      have hend' : ∀ d ∈ z'.head?, isIdentPart u d = false := by
        obtain hz | hz := hz
        · rw [hz]
          exact hend
        · exact fun d hd => (hz d hd).1
      exact .word hc hd ht hend' (fun hc => dollarTag_follow hend' (htag hc)) (prefixed_follow ht hz hend' hp)
  | punct hc hg hn hq hm hs =>
      refine .punct hc hg ?_ hq ?_ ?_
      · rintro (h | ⟨rfl, h⟩)
        · exact hn (.inl h)
        · obtain hz | hz := hz
          · rw [hz] at h
            exact hn (.inr ⟨rfl, h⟩)
          · cases hd : z'.head? with
            | none => simp [hd] at h
            | some d =>
                rw [hd, Option.any_some, (hz d hd).not_digit] at h
                cases h
      · intro h
        obtain hd | hd := hdash h
        · rw [hd]
          exact hm h
        · simpa using hd
      · intro h
        obtain hz | hz := hz
        · rw [hz]
          exact hs h
        · exact fun hstar => absurd (by simp) (hz '*' hstar).2

/-- A dash starts a comment or stands alone. -/
theorem Lexes.dash (h : Lexes u z '-' t kind) :
    (kind = some .comment ∧ t ≠ [] ∧ ∀ d ∈ z.head?, d = '\n') ∨ (kind = some .punct ∧ t = []) := by
  obtain ⟨hi, hn⟩ := lead_plain (u := u) (c := '-') (t ++ z) (by decide)
  cases h with
  | gap h => simp [isGap] at h
  | lineComment ht hz => exact .inl ⟨rfl, by simp, hz⟩
  | number hc => exact absurd hc hn
  | word hc => simp [hi] at hc
  | punct => exact .inr ⟨rfl, rfl⟩
  | _ => simp_all

theorem Exponent.extend (h : Exponent u z') (hz : z' <+: z) : Exponent u z := by
  obtain ⟨e, sign, d, x, rfl, he, hs, hd⟩ := h
  obtain ⟨y, rfl⟩ := hz
  exact ⟨e, sign, d, x ++ y, by simp, he, hs, hd⟩

/-- A step is the same when the text ends earlier. -/
theorem Lexes.shorten (h : Lexes u z c t kind) (hz : z' <+: z) : Lexes u z' c t kind := by
  have hhead : z'.head? = z.head? ∨ z' = [] := by
    obtain ⟨x, rfl⟩ := hz
    cases z' with
    | nil => exact .inr rfl
    | cons d z' => exact .inl rfl
  obtain hhead | rfl := hhead
  · exact h.follow (.inl hhead) (fun _ => .inl hhead) fun he => he.extend hz
  · refine h.follow (.inr (by simp)) (fun _ => .inr ?_) fun he => he.extend hz
    split <;> simp

end Step

end Migr8.Scanner
