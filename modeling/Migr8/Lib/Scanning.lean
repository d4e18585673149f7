import Mathlib.Data.List.Infix

namespace Migr8.Lib.Scanning

variable {α κ ε : Type}

/-- A stretch of the text; one without a kind is a gap. -/
structure Piece (α κ : Type) where
  kind : Option κ
  text : List α
  deriving DecidableEq, Repr

/-- What starts at a character, given what follows it: its kind, and how many of
the following characters belong to it. -/
abbrev Step (α κ ε : Type) := α → List α → Except ε (Option κ × Nat)

/-- `skip` counts the characters that the last piece still covers. -/
def scanFrom (step : Step α κ ε) : Nat → List α → Except ε (List (Piece α κ))
  | _, [] => .ok []
  | skip + 1, _ :: cs => scanFrom step skip cs
  | 0, c :: cs => do
    let (kind, more) ← step c cs
    let ps ← scanFrom step more cs
    return ⟨kind, c :: cs.take more⟩ :: ps

def scan (step : Step α κ ε) (text : List α) : Except ε (List (Piece α κ)) := scanFrom step 0 text

def join (ps : List (Piece α κ)) : List α := ps.flatMap (·.text)

def Bounded (step : Step α κ ε) : Prop := ∀ c cs kind more, step c cs = .ok (kind, more) → more ≤ cs.length

/-- What the scanner makes of the text of the pieces when `rest` follows it. -/
inductive Reads (step : Step α κ ε) (rest : List α) : List (Piece α κ) → Prop
  | nil : Reads step rest []
  | cons {kind : Option κ} {c : α} {t : List α} {ps : List (Piece α κ)}
      (h : step c (t ++ (join ps ++ rest)) = .ok (kind, t.length)) (hs : Reads step rest ps) :
      Reads step rest (⟨kind, c :: t⟩ :: ps)

variable {step : Step α κ ε} {text rest rest' : List α} {ps qs : List (Piece α κ)} {p : Piece α κ} {e : ε}

@[simp]
theorem join_nil : join ([] : List (Piece α κ)) = [] := rfl

@[simp]
theorem join_cons : join (p :: ps) = p.text ++ join ps := rfl

@[simp]
theorem join_append : join (ps ++ qs) = join ps ++ join qs := List.flatMap_append

theorem scanFrom_eq (skip : Nat) (text : List α) : scanFrom step skip text = scan step (text.drop skip) := by
  induction text generalizing skip with
  | nil => cases skip <;> rfl
  | cons c cs ih =>
      cases skip with
      | zero => rfl
      | succ skip => exact ih skip

@[simp]
theorem scan_nil : scan step [] = .ok [] := rfl

theorem scan_cons (c : α) (cs : List α) : scan step (c :: cs) = do
    let (kind, more) ← step c cs
    let ps ← scan step (cs.drop more)
    return ⟨kind, c :: cs.take more⟩ :: ps := by
  simp only [← scanFrom_eq]
  rfl

theorem scan_cons_ok {c : α} {cs : List α} : scan step (c :: cs) = .ok ps ↔
    ∃ kind more qs, step c cs = .ok (kind, more) ∧ scan step (cs.drop more) = .ok qs ∧
      ps = ⟨kind, c :: cs.take more⟩ :: qs := by
  rw [scan_cons]
  cases hstep : step c cs with
  | error e => simp [bind, Except.bind]
  | ok r =>
      cases hscan : scan step (cs.drop r.2) with
      | error e =>
          simp only [bind, Except.bind, hscan, reduceCtorEq, false_iff, not_exists, not_and]
          intro kind more qs he hq
          cases he
          rw [hscan] at hq
          cases hq
      | ok qs =>
          simp only [bind, Except.bind, hscan, pure, Except.pure, Except.ok.injEq]
          constructor
          · intro h
            exact ⟨r.1, r.2, qs, rfl, hscan, h.symm⟩
          · rintro ⟨kind, more, qs', he, hq, hps⟩
            cases he
            rw [hscan] at hq
            cases hq
            exact hps.symm

/-- The pieces of a text are those that read back as it. -/
theorem scan_eq_ok (hb : Bounded step) : scan step text = .ok ps ↔ join ps = text ∧ Reads step [] ps := by
  constructor
  · intro h
    induction ps generalizing text with
    | nil =>
        cases text with
        | nil => exact ⟨rfl, .nil⟩
        | cons c cs =>
            obtain ⟨_, _, _, _, _, hps⟩ := scan_cons_ok.1 h
            cases hps
    | cons p ps ih =>
        cases text with
        | nil => cases h
        | cons c cs =>
            obtain ⟨kind, more, qs, hstep, hscan, hps⟩ := scan_cons_ok.1 h
            cases hps
            obtain ⟨hjoin, hreads⟩ := ih hscan
            refine ⟨by simp [hjoin], .cons ?_ hreads⟩
            rw [hjoin, List.append_nil, List.take_append_drop, List.length_take,
              Nat.min_eq_left (hb _ _ _ _ hstep)]
            exact hstep
  · rintro ⟨rfl, h⟩
    induction h with
    | nil => rfl
    | @cons kind c t ps h hs ih =>
        rw [List.append_nil] at h
        have hdrop : (t ++ join ps).drop t.length = join ps := List.drop_left
        have htake : (t ++ join ps).take t.length = t := List.take_left
        have hscan : scan step (c :: (t ++ join ps)) = .ok (⟨kind, c :: t⟩ :: ps) :=
          scan_cons_ok.2 ⟨kind, t.length, ps, h, by rw [hdrop]; exact ih, by rw [htake]⟩
        exact hscan

theorem reads_cons {kind : Option κ} {c : α} {t : List α} : Reads step rest (⟨kind, c :: t⟩ :: ps) ↔
    step c (t ++ (join ps ++ rest)) = .ok (kind, t.length) ∧ Reads step rest ps := by
  constructor
  · intro h
    cases h with
    | cons h hs => exact ⟨h, hs⟩
  · intro h
    exact .cons h.1 h.2

theorem reads_append : Reads step rest (ps ++ qs) ↔ Reads step (join qs ++ rest) ps ∧ Reads step rest qs := by
  induction ps with
  | nil => exact ⟨fun h => ⟨.nil, h⟩, fun h => h.2⟩
  | cons p ps ih =>
      have hjoin : join (ps ++ qs) ++ rest = join ps ++ (join qs ++ rest) := by
        rw [join_append, List.append_assoc]
      constructor
      · intro h
        cases h with
        | cons h hs =>
            obtain ⟨h1, h2⟩ := ih.1 hs
            exact ⟨.cons (hjoin ▸ h) h1, h2⟩
      · rintro ⟨h, h2⟩
        cases h with
        | cons h hs => exact .cons (hjoin ▸ h) (ih.2 ⟨hs, h2⟩)

/-- A text is divided in one way before a given continuation. -/
theorem Reads.unique (h : Reads step rest ps) (h' : Reads step rest qs) (hj : join ps = join qs) : ps = qs := by
  induction h generalizing qs with
  | nil =>
      cases h' with
      | nil => rfl
      | cons => cases hj
  | @cons kind c t ps h hs ih =>
      cases h' with
      | nil => cases hj
      | @cons kind' c' t' qs h' hs' =>
          rw [join_cons, join_cons, List.cons_append, List.cons_append, List.cons.injEq] at hj
          obtain ⟨rfl, hj⟩ := hj
          rw [← List.append_assoc] at h h'
          rw [hj, h', Except.ok.injEq, Prod.mk.injEq] at h
          obtain ⟨rfl, hlen⟩ := h
          obtain ⟨rfl, htail⟩ := List.append_inj hj hlen.symm
          rw [ih hs' htail]

/-- An error of the scan is an error of one of its steps. -/
theorem scan_error (h : scan step text = .error e) : ∃ c cs, step c cs = .error e := by
  induction hn : text.length using Nat.strong_induction_on generalizing text with
  | _ n ih =>
      cases text with
      | nil => cases h
      | cons c cs =>
          rw [scan_cons] at h
          cases hstep : step c cs with
          | error e' =>
              rw [hstep] at h
              cases h
              exact ⟨c, cs, hstep⟩
          | ok r =>
              cases hscan : scan step (cs.drop r.2) with
              | ok qs => simp [hstep, hscan, bind, Except.bind, pure, Except.pure] at h
              | error e' =>
                  have he : e' = e := by simpa [hstep, hscan, bind, Except.bind] using h
                  subst he
                  refine ih (cs.drop r.2).length ?_ hscan rfl
                  rw [← hn, List.length_drop, List.length_cons]
                  omega

section Lexing

variable {σ : Type}

/-- What starts at a character for a reader with a state: its kind, how many of the
following characters belong to it and the state after it; nothing where it cannot read on. -/
abbrev Rule (σ α κ : Type) := σ → α → List α → Option (Option κ × Nat × σ)

def lexFrom (rule : Rule σ α κ) : σ → Nat → List α → Option (List (Piece α κ))
  | _, _, [] => some []
  | s, skip + 1, _ :: cs => lexFrom rule s skip cs
  | s, 0, c :: cs => do
    let (kind, more, s') ← rule s c cs
    let ps ← lexFrom rule s' more cs
    return ⟨kind, c :: cs.take more⟩ :: ps

theorem lexFrom_join {rule : Rule σ α κ} {s : σ} {skip : Nat} (h : lexFrom rule s skip text = some ps) :
    join ps = text.drop skip := by
  induction text generalizing s skip ps with
  | nil =>
      cases skip <;>
        · cases h
          simp
  | cons c cs ih =>
      cases skip with
      | succ skip => exact ih h
      | zero =>
          rw [lexFrom] at h
          obtain ⟨⟨kind, more, s'⟩, -, h⟩ := Option.bind_eq_some_iff.1 h
          obtain ⟨qs, hqs, h⟩ := Option.bind_eq_some_iff.1 h
          cases h
          rw [join_cons, ih hqs, List.cons_append, List.take_append_drop, List.drop_zero]

end Lexing

section Search

variable [DecidableEq α] {n : Nat} {x : List α}

def find (x : List α) : List α → Option Nat
  | [] => if x = [] then some 0 else none
  | c :: cs => if x.isPrefixOf (c :: cs) then some 0 else (find x cs).map (· + 1)

/-- `x` stands at the end of `t ++ x` and nowhere before. -/
def Closes (x t : List α) : Prop := ∀ m < t.length, ¬ x <+: (t ++ x).drop m

theorem find_eq_some : find x text = some n ↔ ∃ t rest, text = t ++ (x ++ rest) ∧ t.length = n ∧ Closes x t := by
  induction text generalizing n with
  | nil =>
      simp only [find, List.nil_eq, List.append_eq_nil_iff]
      constructor
      · intro h
        by_cases hx : x = []
        · rw [if_pos hx] at h
          cases h
          exact ⟨[], [], ⟨rfl, hx, rfl⟩, rfl, fun m hm => absurd hm (Nat.not_lt_zero m)⟩
        · rw [if_neg hx] at h
          cases h
      · rintro ⟨t, rest, ⟨rfl, hx, -⟩, rfl, -⟩
        rw [if_pos hx]
        rfl
  | cons c cs ih =>
      simp only [find, List.isPrefixOf_iff_prefix]
      by_cases hx : x <+: c :: cs
      · rw [if_pos hx]
        constructor
        · intro h
          cases h
          obtain ⟨rest, hr⟩ := hx
          exact ⟨[], rest, hr.symm, rfl, fun m hm => absurd hm (Nat.not_lt_zero m)⟩
        · rintro ⟨t, rest, ht, rfl, hc⟩
          cases t with
          | nil => rfl
          | cons d t =>
              refine absurd ?_ (hc 0 (Nat.succ_pos _))
              rw [List.drop_zero]
              have hpre : d :: t ++ x <+: c :: cs := ⟨rest, by rw [ht, List.append_assoc]⟩
              exact List.prefix_of_prefix_length_le hx hpre (by simp; omega)
      · rw [if_neg hx]
        simp only [Option.map_eq_some_iff, ih]
        constructor
        · rintro ⟨m, ⟨t, rest, ht, rfl, hc⟩, rfl⟩
          refine ⟨c :: t, rest, by rw [ht]; rfl, rfl, fun m hm => ?_⟩
          cases m with
          | zero =>
              intro hp
              refine hx (hp.trans ⟨rest, ?_⟩)
              rw [ht, List.drop_zero, List.append_assoc]
              rfl
          | succ m => exact hc m (Nat.lt_of_succ_lt_succ hm)
        · rintro ⟨t, rest, ht, rfl, hc⟩
          cases t with
          | nil => exact absurd ⟨rest, ht.symm⟩ hx
          | cons d t =>
              obtain ⟨rfl, hcs⟩ : c = d ∧ cs = t ++ (x ++ rest) := by simpa using ht
              exact ⟨t.length, ⟨t, rest, hcs, rfl, fun m hm => hc (m + 1) (Nat.succ_lt_succ hm)⟩, rfl⟩

omit [DecidableEq α] in
/-- A single character closes a text that does not hold it. -/
theorem closes_pair {a b : α} (hab : a ≠ b) {t : List α} : Closes [a, b] t ↔ ¬ [a, b] <:+: t := by
  constructor
  · rintro h ⟨x, y, rfl⟩
    refine h x.length (by simp) ⟨y ++ [a, b], ?_⟩
    rw [List.append_assoc, List.append_assoc, List.drop_left]
  · intro h m hm hp
    have hdrop : (t ++ [a, b]).drop m = t.drop m ++ [a, b] := List.drop_append_of_le_length (Nat.le_of_lt hm)
    rw [hdrop, List.drop_eq_getElem_cons hm, List.cons_append, List.cons_prefix_cons] at hp
    obtain ⟨ha, hp⟩ := hp
    cases hrest : t.drop (m + 1) with
    | nil =>
        rw [hrest] at hp
        simp only [List.nil_append, List.cons_prefix_cons] at hp
        exact hab hp.1.symm
    | cons d r =>
        rw [hrest, List.cons_append, List.cons_prefix_cons] at hp
        refine h ⟨t.take m, r, ?_⟩
        have hsplit : t.drop m = a :: b :: r := by
          rw [List.drop_eq_getElem_cons hm, hrest, ← ha, ← hp.1]
        rw [List.append_assoc]
        exact (congrArg (t.take m ++ ·) hsplit).symm.trans (List.take_append_drop m t)

omit [DecidableEq α] in
theorem closes_singleton {c : α} {t : List α} : Closes [c] t ↔ c ∉ t := by
  constructor
  · intro h hc
    obtain ⟨a, b, rfl⟩ := List.append_of_mem hc
    refine h a.length (by simp) ⟨b ++ [c], ?_⟩
    rw [List.append_assoc, List.drop_left]
    rfl
  · intro h m hm hp
    have hdrop : (t ++ [c]).drop m = t.drop m ++ [c] := List.drop_append_of_le_length (Nat.le_of_lt hm)
    rw [hdrop, List.drop_eq_getElem_cons hm, List.cons_append, List.cons_prefix_cons] at hp
    exact h (hp.1 ▸ List.getElem_mem hm)

theorem find_singleton {c : α} : find [c] text = none ↔ c ∉ text := by
  constructor
  · intro h hc
    obtain ⟨a, b, rfl, ha⟩ := List.eq_append_cons_of_mem hc
    have hsome : find [c] (a ++ c :: b) = some a.length :=
      find_eq_some.2 ⟨a, b, rfl, rfl, closes_singleton.2 ha⟩
    rw [h] at hsome
    cases hsome
  · intro hc
    cases hf : find [c] text with
    | none => rfl
    | some n =>
        obtain ⟨t, rest, rfl, -, -⟩ := find_eq_some.1 hf
        exact absurd (by simp) hc

end Search

end Migr8.Lib.Scanning
