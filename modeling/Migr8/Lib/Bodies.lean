import Mathlib.Data.List.Basic

namespace Migr8.Lib.Bodies

variable {α : Type}

/-- Statements that marks end; one of them may hold a body of further statements. -/
structure Grammar (α : Type) where
  mark : α → Bool
  /-- Whether a symbol opens the body of a statement that begins with these symbols. -/
  opens : List α → α → Bool
  /-- Whether a symbol, where a statement of a body would begin, ends the body. -/
  closes : α → Bool

/-- An unfinished statement: its symbols so far, and whether its body is over. -/
structure Frame (α : Type) where
  before : List α
  closed : Bool

def fresh : Frame α := ⟨[], false⟩

def finish : List (Frame α) → List (Frame α)
  | [] => []
  | f :: fs => ⟨f.before, true⟩ :: fs

/-- The unfinished statements after a symbol, the innermost first. -/
def step (g : Grammar α) : List (Frame α) → α → List (Frame α)
  | [], _ => []
  | f :: fs, x =>
      if g.mark x then fresh :: fs
      else if f.before.isEmpty && !fs.isEmpty && g.closes x then finish fs
      else if !f.closed && g.opens f.before x then fresh :: ⟨f.before ++ [x], f.closed⟩ :: fs
      else ⟨f.before ++ [x], f.closed⟩ :: fs

def run (g : Grammar α) (fs : List (Frame α)) (xs : List α) : List (Frame α) := xs.foldl (step g) fs

def level (g : Grammar α) (xs : List α) : Nat := (run g [fresh] xs).length - 1

/-- Every mark is the last symbol, or lies in a body that is over later on. -/
def Single (g : Grammar α) (xs : List α) : Prop :=
  ∀ before x after, xs = before ++ x :: after → g.mark x = true → after = [] ∨
    (0 < level g before ∧ ∃ inner rest, after = inner ++ rest ∧ level g (before ++ x :: inner) = 0)

inductive Part (α : Type) where
  | statement (before : List α)
  | body

/-- What may follow the first symbols of a statement, up to its mark; and what a body is. -/
inductive Reads (g : Grammar α) : Part α → List α → Prop
  | done {before : List α} : Reads g (.statement before) []
  | word {before xs : List α} {x : α} (hm : g.mark x = false) (ho : g.opens before x = false)
      (h : Reads g (.statement (before ++ [x])) xs) : Reads g (.statement before) (x :: xs)
  | block {before ys zs : List α} {x y : α} (hm : g.mark x = false) (ho : g.opens before x = true)
      (h : Reads g .body ys) (hy : g.mark y = false) (hc : g.closes y = true)
      (hz : ∀ z ∈ zs, g.mark z = false) : Reads g (.statement before) (x :: (ys ++ y :: zs))
  | nil : Reads g .body []
  | cons {xs ys : List α} {m : α} (hh : ∀ x ∈ xs.head?, g.closes x = false) (h : Reads g (.statement []) xs)
      (hm : g.mark m = true) (hs : Reads g .body ys) : Reads g .body (xs ++ m :: ys)

def Stays (g : Grammar α) (n : Nat) : List (Frame α) → List α → Prop
  | fs, [] => n ≤ fs.length
  | fs, x :: xs => n ≤ fs.length ∧ Stays g n (step g fs x) xs

def Enclosed (g : Grammar α) (n : Nat) : List (Frame α) → List α → Prop
  | _, [] => True
  | fs, x :: xs => (g.mark x = true → n < fs.length) ∧ Enclosed g n (step g fs x) xs

variable {g : Grammar α} {f : Frame α} {fs : List (Frame α)} {before after xs ys zs : List α} {x y m : α} {n : Nat}
  {c : Bool}

section Step

theorem step_mark (h : g.mark x = true) : step g (f :: fs) x = fresh :: fs := by simp [step, h]

theorem step_close (hm : g.mark x = false) (hc : g.closes x = true) :
    step g (fresh :: f :: fs) x = ⟨f.before, true⟩ :: fs := by
  simp [step, hm, hc, fresh, finish]

theorem step_open (hm : g.mark x = false) (hc : fs = [] ∨ before ≠ [] ∨ g.closes x = false)
    (ho : g.opens before x = true) :
    step g (⟨before, false⟩ :: fs) x = fresh :: ⟨before ++ [x], false⟩ :: fs := by
  have hstay : (before.isEmpty && !fs.isEmpty && g.closes x) = false := by
    obtain rfl | hne | hx := hc
    · simp
    · simp [hne]
    · simp [hx]
  simp [step, hm, hstay, ho]

theorem step_push (hm : g.mark x = false) (hc : fs = [] ∨ before ≠ [] ∨ g.closes x = false)
    (ho : c = true ∨ g.opens before x = false) :
    step g (⟨before, c⟩ :: fs) x = ⟨before ++ [x], c⟩ :: fs := by
  have hstay : (before.isEmpty && !fs.isEmpty && g.closes x) = false := by
    obtain rfl | hne | hx := hc
    · simp
    · simp [hne]
    · simp [hx]
  have hopen : (!c && g.opens before x) = false := by
    obtain rfl | hx := ho
    · simp
    · simp [hx]
  simp [step, hm, hstay, hopen]

@[simp]
theorem run_nil : run g fs [] = fs := rfl

@[simp]
theorem run_cons : run g fs (x :: xs) = run g (step g fs x) xs := rfl

@[simp]
theorem run_append : run g fs (xs ++ ys) = run g (run g fs xs) ys := List.foldl_append

/-- After its body a statement goes on to its mark. -/
theorem run_closed (hb : before ≠ []) (h : ∀ x ∈ xs, g.mark x = false) :
    run g (⟨before, true⟩ :: fs) xs = ⟨before ++ xs, true⟩ :: fs := by
  induction xs generalizing before with
  | nil => simp
  | cons x xs ih =>
      rw [run_cons, step_push (h x List.mem_cons_self) (.inr (.inl hb)) (.inl rfl),
        ih (by simp) fun y hy => h y (List.mem_cons_of_mem _ hy), List.append_assoc, List.singleton_append]

end Step

section Statements

theorem reads_cons (ho : g.opens before x = false) : Reads g (.statement before) (x :: xs) ↔
    g.mark x = false ∧ Reads g (.statement (before ++ [x])) xs := by
  constructor
  · intro hr
    cases hr with
    | word hm _ hs => exact ⟨hm, hs⟩
    | block _ hopen =>
        rw [ho] at hopen
        cases hopen
  · exact fun hr => .word hr.1 ho hr.2

/-- Symbols that neither open a body nor end a statement are read one by one. -/
theorem reads_append (h : ∀ x ∈ xs, g.mark x = false ∧ ∀ before, g.opens before x = false) :
    Reads g (.statement before) (xs ++ ys) ↔ Reads g (.statement (before ++ xs)) ys := by
  induction xs generalizing before with
  | nil => rw [List.nil_append, List.append_nil]
  | cons x xs ih =>
      obtain ⟨hm, ho⟩ := h x List.mem_cons_self
      rw [List.cons_append, reads_cons (ho before), ih fun y hy => h y (List.mem_cons_of_mem _ hy), ← List.append_cons]
      exact and_iff_right hm

/-- Two beginnings in front of which the same bodies open go on alike. -/
theorem Reads.congr {before' : List α} (h : Reads g (.statement before) xs)
    (hb : ∀ ys x, g.opens (before ++ ys) x = g.opens (before' ++ ys) x) : Reads g (.statement before') xs := by
  generalize hp : Part.statement before = part at h
  induction h generalizing before before' with
  | done => exact .done
  | @word b xs x hm ho h ih =>
      cases hp
      refine .word hm ?_ (ih (fun ys y => ?_) rfl)
      · rw [← ho]
        simpa using (hb [] x).symm
      · simpa using hb (x :: ys) y
  | @block b ys zs x y hm ho h hy hc hz ih =>
      cases hp
      refine .block hm ?_ h hy hc hz
      rw [← ho]
      simpa using (hb [] x).symm
  | nil => cases hp
  | cons => cases hp

end Statements

section Levels

theorem stays_append : Stays g n fs (xs ++ ys) ↔ Stays g n fs xs ∧ Stays g n (run g fs xs) ys := by
  induction xs generalizing fs with
  | nil =>
      refine ⟨fun h => ⟨?_, h⟩, And.right⟩
      cases ys with
      | nil => exact h
      | cons y ys => exact h.1
  | cons x xs ih => rw [List.cons_append, Stays, ih, Stays, run_cons, and_assoc]

theorem enclosed_append : Enclosed g n fs (xs ++ ys) ↔ Enclosed g n fs xs ∧ Enclosed g n (run g fs xs) ys := by
  induction xs generalizing fs with
  | nil => simp [Enclosed]
  | cons x xs ih => rw [List.cons_append, Enclosed, ih, Enclosed, run_cons, and_assoc]

theorem Stays.enclosed (h : Stays g (n + 1) fs xs) : Enclosed g n fs xs := by
  induction xs generalizing fs with
  | nil => trivial
  | cons x xs ih => exact ⟨fun _ => h.1, ih h.2⟩

theorem Stays.mono {k : Nat} (hk : k ≤ n) (h : Stays g n fs xs) : Stays g k fs xs := by
  induction xs generalizing fs with
  | nil => exact Nat.le_trans hk h
  | cons x xs ih => exact ⟨Nat.le_trans hk h.1, ih h.2⟩

theorem Stays.last (h : Stays g n fs xs) : n ≤ (run g fs xs).length := by
  induction xs generalizing fs with
  | nil => exact h
  | cons x xs ih => exact ih h.2

theorem stays_closed (hb : before ≠ []) (h : ∀ x ∈ xs, g.mark x = false) :
    Stays g (fs.length + 1) (⟨before, true⟩ :: fs) xs := by
  induction xs generalizing before with
  | nil => exact Nat.le_refl _
  | cons x xs ih =>
      refine ⟨Nat.le_refl _, ?_⟩
      rw [step_push (h x List.mem_cons_self) (.inr (.inl hb)) (.inl rfl)]
      exact ih (by simp) fun y hy => h y (List.mem_cons_of_mem _ hy)

theorem enclosed_unmarked (h : ∀ x ∈ xs, g.mark x = false) : Enclosed g n fs xs := by
  induction xs generalizing fs with
  | nil => trivial
  | cons x xs ih =>
      refine ⟨fun hm => ?_, ih fun y hy => h y (List.mem_cons_of_mem _ hy)⟩
      rw [h x List.mem_cons_self] at hm
      cases hm

/-- After its body a statement holds no mark that is enclosed. -/
theorem unmarked_of_closed (hb : before ≠ []) (h : Enclosed g (fs.length + 1) (⟨before, true⟩ :: fs) xs) :
    ∀ x ∈ xs, g.mark x = false := by
  induction xs generalizing before with
  | nil => simp
  | cons x xs ih =>
      have hm : g.mark x = false := by
        by_contra hne
        have hlt := h.1 (by simpa using hne)
        simp at hlt
      have hs := h.2
      rw [step_push hm (.inr (.inl hb)) (.inl rfl)] at hs
      intro y hy
      obtain rfl | hy := List.mem_cons.1 hy
      · exact hm
      · exact ih (by simp) hs y hy

end Levels

section Runs

def Kept (g : Grammar α) (fs : List (Frame α)) (xs : List α) : Part α → Prop
  | .statement before => (fs = [] ∨ before ≠ [] ∨ ∀ x ∈ xs.head?, g.closes x = false) →
      (∃ f, run g (⟨before, false⟩ :: fs) xs = f :: fs) ∧ Stays g (fs.length + 1) (⟨before, false⟩ :: fs) xs ∧
        Enclosed g (fs.length + 1) (⟨before, false⟩ :: fs) xs
  | .body => fs ≠ [] → run g (fresh :: fs) xs = fresh :: fs ∧ Stays g (fs.length + 1) (fresh :: fs) xs

theorem Reads.kept {part : Part α} (h : Reads g part xs) : ∀ fs, Kept g fs xs part := by
  induction h with
  | done =>
      intro fs _
      exact ⟨⟨_, rfl⟩, Nat.le_refl _, trivial⟩
  | @word before xs x hm ho h ih =>
      intro fs hfs
      have hstep := step_push (c := false) hm (by simpa using hfs) (.inr ho)
      obtain ⟨hrun, hstays, hencl⟩ := ih fs (.inr (.inl (by simp)))
      refine ⟨?_, ⟨Nat.le_refl _, ?_⟩, ?_, ?_⟩
      · rw [run_cons, hstep]
        exact hrun
      · rw [hstep]
        exact hstays
      · simp [hm]
      · rw [hstep]
        exact hencl
  | @block before ys zs x y hm ho h hy hc hz ih =>
      intro fs hfs
      have hstep := step_open hm (by simpa using hfs) ho
      obtain ⟨hrun, hstays⟩ := ih (⟨before ++ [x], false⟩ :: fs) (by simp)
      have hclose : step g (fresh :: ⟨before ++ [x], false⟩ :: fs) y = ⟨before ++ [x], true⟩ :: fs := step_close hy hc
      have hne : before ++ [x] ≠ [] := by simp
      refine ⟨⟨⟨before ++ [x] ++ zs, true⟩, ?_⟩, ⟨Nat.le_refl _, ?_⟩, ?_, ?_⟩
      · rw [run_cons, hstep, run_append, hrun, run_cons, hclose]
        exact run_closed hne hz
      · rw [hstep, stays_append, hrun, Stays, hclose]
        exact ⟨hstays.mono (by simp), by simp, stays_closed hne hz⟩
      · simp [hm]
      · rw [hstep, enclosed_append, hrun]
        refine ⟨hstays.enclosed, ?_, ?_⟩
        · simp [hy]
        · rw [hclose]
          exact enclosed_unmarked hz
  | nil =>
      intro fs _
      exact ⟨rfl, Nat.le_refl _⟩
  | @cons xs ys m hh h hm hs ih ihs =>
      intro fs hfs
      obtain ⟨⟨f, hrun⟩, hstays, -⟩ := ih fs (.inr (.inr hh))
      obtain ⟨hrun', hstays'⟩ := ihs fs hfs
      have hmark : step g (f :: fs) m = fresh :: fs := step_mark hm
      refine ⟨?_, ?_⟩
      · rw [run_append, fresh, hrun, run_cons, hmark, hrun']
        rfl
      · rw [stays_append]
        refine ⟨hstays, ?_⟩
        rw [fresh, hrun]
        refine ⟨by simp, ?_⟩
        rw [hmark]
        exact hstays'

end Runs

section Drops

/-- A run that leaves a statement whose body is over meets its mark. -/
theorem mark_of_drop (hb : before ≠ []) (h : ¬ Stays g (fs.length + 1) (⟨before, true⟩ :: fs) xs) :
    ∃ zs m rest, xs = zs ++ m :: rest ∧ (∀ z ∈ zs, g.mark z = false) ∧ g.mark m = true ∧
      ¬ Stays g (fs.length + 1) (fresh :: fs) rest := by
  induction xs generalizing before with
  | nil => exact absurd (Nat.le_refl _) h
  | cons x xs ih =>
      have hdrop : ¬ Stays g (fs.length + 1) (step g (⟨before, true⟩ :: fs) x) xs := fun hs => h ⟨Nat.le_refl _, hs⟩
      cases hm : g.mark x with
      | true =>
          rw [step_mark hm] at hdrop
          exact ⟨[], x, xs, rfl, by simp, hm, hdrop⟩
      | false =>
          rw [step_push hm (.inr (.inl hb)) (.inl rfl)] at hdrop
          obtain ⟨zs, m, rest, rfl, hz, hmark, hrest⟩ := ih (by simp) hdrop
          exact ⟨x :: zs, m, rest, rfl, by simpa [hm] using hz, hmark, hrest⟩

def Opened (g : Grammar α) (xs : List α) : Prop :=
  ∃ ys y rest, xs = ys ++ y :: rest ∧ Reads g .body ys ∧ g.mark y = false ∧ g.closes y = true

/-- What is left after a body, where it is known that the run leaves the statement around it. -/
theorem drop_after (hbody : Reads g .body ys) (hy : g.mark y = false) (hc : g.closes y = true)
    (h : ¬ Stays g (fs.length + 1) (fresh :: f :: fs) (ys ++ y :: zs)) :
    ¬ Stays g (fs.length + 1) (⟨f.before, true⟩ :: fs) zs := by
  obtain ⟨hrun, hstays⟩ := hbody.kept (f :: fs) (by simp)
  intro hs
  apply h
  rw [stays_append, hrun, Stays, step_close hy hc]
  exact ⟨hstays.mono (by simp), by simp, hs⟩

/-- A run that leaves a statement meets its mark. -/
theorem statement_of_drop (hQ : ∀ ys fs, ys.length < n → fs ≠ [] → ¬ Stays g (fs.length + 1) (fresh :: fs) ys →
      Opened g ys) (hn : xs.length ≤ n) (hfs : before ≠ [] ∨ ∀ x ∈ xs.head?, g.mark x = false → g.closes x = false)
    (h : ¬ Stays g (fs.length + 1) (⟨before, false⟩ :: fs) xs) :
    ∃ zs m rest, xs = zs ++ m :: rest ∧ Reads g (.statement before) zs ∧ g.mark m = true ∧
      ¬ Stays g (fs.length + 1) (fresh :: fs) rest := by
  induction xs generalizing before with
  | nil => exact absurd (Nat.le_refl _) h
  | cons x xs ih =>
      have hdrop : ¬ Stays g (fs.length + 1) (step g (⟨before, false⟩ :: fs) x) xs :=
        fun hs => h ⟨Nat.le_refl _, hs⟩
      rw [List.length_cons] at hn
      cases hm : g.mark x with
      | true =>
          rw [step_mark hm] at hdrop
          exact ⟨[], x, xs, rfl, .done, hm, hdrop⟩
      | false =>
          have hpre : fs = [] ∨ before ≠ [] ∨ g.closes x = false := .inr (by simpa [hm] using hfs)
          cases ho : g.opens before x with
          | false =>
              rw [step_push hm hpre (.inr ho)] at hdrop
              obtain ⟨zs, m, rest, rfl, hz, hmark, hrest⟩ := ih (by omega) (.inl (by simp)) hdrop
              exact ⟨x :: zs, m, rest, rfl, .word hm ho hz, hmark, hrest⟩
          | true =>
              rw [step_open hm hpre ho] at hdrop
              obtain ⟨ys, y, rest, rfl, hbody, hy, hc⟩ := hQ xs (⟨before ++ [x], false⟩ :: fs) (by omega) (by simp)
                fun hs => hdrop (hs.mono (by simp))
              obtain ⟨zs, m, rest', rfl, hz, hmark, hrest⟩ := mark_of_drop (by simp) (drop_after hbody hy hc hdrop)
              exact ⟨x :: (ys ++ y :: zs), m, rest', by simp, .block hm ho hbody hy hc hz, hmark, hrest⟩

theorem Reads.head_unmarked (h : Reads g (.statement before) (x :: xs)) : g.mark x = false := by
  cases h with
  | word hm => exact hm
  | block hm => exact hm

/-- A run that leaves a body begins with the whole of it. -/
theorem opened_of_drop (hn : xs.length < n) (hfs : fs ≠ []) (h : ¬ Stays g (fs.length + 1) (fresh :: fs) xs) :
    Opened g xs := by
  induction n generalizing xs fs with
  | zero => omega
  | succ n ih =>
      cases xs with
      | nil => exact absurd (Nat.le_refl _) h
      | cons x xs =>
          by_cases hend : g.mark x = false ∧ g.closes x = true
          · exact ⟨[], x, xs, rfl, .nil, hend⟩
          · have hfirst : g.mark x = false → g.closes x = false := by simpa using hend
            obtain ⟨zs, m, rest, hsplit, hz, hm, hrest⟩ := statement_of_drop (fun ys fs hy hne hd => ih hy hne hd)
              (Nat.le_of_lt_succ hn) (.inr (by simpa using hfirst)) h
            have hlen := congrArg List.length hsplit
            rw [List.length_append, List.length_cons, List.length_cons] at hlen
            rw [List.length_cons] at hn
            obtain ⟨ys, y, rest', rfl, hbody, hy, hc⟩ := ih (by omega) hfs hrest
            refine ⟨zs ++ m :: ys, y, rest', by simp [hsplit], .cons ?_ hz hm hbody, hy, hc⟩
            intro z hzmem
            cases zs with
            | nil => cases hzmem
            | cons z' zs =>
                cases hzmem
                cases hsplit
                exact hfirst hz.head_unmarked

end Drops

section Single

theorem level_zero_iff : level g xs = 0 ↔ (run g [fresh] xs).length ≤ 1 := by
  rw [level]
  omega

theorem Enclosed.at_mark (h : Enclosed g n fs (before ++ x :: after)) (hm : g.mark x = true) :
    n < (run g fs before).length := by
  rw [enclosed_append] at h
  exact h.2.1 hm

theorem enclosed_of_at_mark
    (h : ∀ before x after, xs = before ++ x :: after → g.mark x = true → n < (run g fs before).length) :
    Enclosed g n fs xs := by
  induction xs generalizing fs with
  | nil => trivial
  | cons x xs ih =>
      refine ⟨h [] x xs rfl, ih fun before y after hx hm => ?_⟩
      exact h (x :: before) y after (by rw [hx, List.cons_append]) hm

/-- A mark but the last one stands before the last one. -/
theorem split_last (h : xs ++ [m] = before ++ x :: after) :
    after = [] ∨ ∃ zs, after = zs ++ [m] ∧ xs = before ++ x :: zs := by
  obtain rfl | ⟨zs, y, rfl⟩ := List.eq_nil_or_concat after
  · exact .inl rfl
  · rw [List.concat_eq_append, ← List.cons_append, ← List.append_assoc] at h
    obtain ⟨hxs, hy⟩ := List.append_inj' h rfl
    cases hy
    exact .inr ⟨zs, List.concat_eq_append, hxs⟩

/-- A run whose marks lie in bodies that are over later reads as a statement. -/
theorem reads_of_enclosed (hencl : Enclosed g 1 [⟨before, false⟩] xs)
    (hdrop : ∀ zs x after, xs = zs ++ x :: after → g.mark x = true →
      ¬ Stays g 2 (run g [⟨before, false⟩] zs) (x :: after)) :
    (∀ x ∈ xs, g.mark x = false) ∨ Reads g (.statement before) xs := by
  induction xs generalizing before with
  | nil => exact .inr .done
  | cons x xs ih =>
      have hm : g.mark x = false := by
        by_contra hne
        have hlt := hencl.1 (by simpa using hne)
        simp at hlt
      have hencl' := hencl.2
      cases ho : g.opens before x with
      | false =>
          have hstep : step g [⟨before, false⟩] x = [⟨before ++ [x], false⟩] := step_push hm (.inl rfl) (.inr ho)
          rw [hstep] at hencl'
          have hrest := ih hencl' fun zs y after hx hy => by
            have hd := hdrop (x :: zs) y after (by rw [hx, List.cons_append]) hy
            rwa [run_cons, hstep] at hd
          refine hrest.imp (fun hall => ?_) fun hr => .word hm ho hr
          simpa [hm] using hall
      | true =>
          have hstep : step g [⟨before, false⟩] x = [fresh, ⟨before ++ [x], false⟩] := step_open hm (.inl rfl) ho
          rw [hstep] at hencl'
          by_cases hall : ∀ y ∈ xs, g.mark y = false
          · exact .inl (by simpa [hm] using hall)
          · right
            obtain ⟨y, hy, hmark⟩ : ∃ y ∈ xs, g.mark y = true := by simpa using hall
            obtain ⟨zs, after, rfl⟩ := List.append_of_mem hy
            have hd := hdrop (x :: zs) y after rfl hmark
            rw [run_cons, hstep] at hd
            have hleft : ¬ Stays g 2 [fresh, ⟨before ++ [x], false⟩] (zs ++ y :: after) :=
              fun hs => hd (stays_append.1 hs).2
            have hne : [(⟨before ++ [x], false⟩ : Frame α)] ≠ [] := by simp
            obtain ⟨ys, e, rest, hx, hbody, he, hc⟩ := opened_of_drop (Nat.lt_succ_self _) hne hleft
            have hrun := (hbody.kept [⟨before ++ [x], false⟩] (by simp)).1
            rw [hx, enclosed_append, hrun, Enclosed, step_close he hc] at hencl'
            have hclosed : Enclosed g (([] : List (Frame α)).length + 1) [⟨before ++ [x], true⟩] rest := hencl'.2.2
            rw [hx]
            exact .block hm ho hbody he hc (unmarked_of_closed (by simp) hclosed)

/-- Symbols with a mark at their end are one statement exactly when they hold no other
mark or read as a statement up to it. -/
theorem single_iff (hm : g.mark m = true) :
    Single g (xs ++ [m]) ↔ (∀ x ∈ xs, g.mark x = false) ∨ Reads g (.statement []) xs := by
  constructor
  · intro h
    have hpos (before x after) (hx : xs = before ++ x :: after) (hmark : g.mark x = true) :=
      (h before x (after ++ [m]) (by simp [hx]) hmark).resolve_left (by simp)
    apply reads_of_enclosed
    · apply enclosed_of_at_mark
      intro before x after hx hmark
      have hlevel := (hpos before x after hx hmark).1
      rw [level, fresh] at hlevel
      omega
    · intro before x after hx hmark hs
      obtain ⟨-, inner, rest, hsplit, hzero⟩ := hpos before x after hx hmark
      rw [level_zero_iff, run_append] at hzero
      obtain rfl | ⟨tl, z, rfl⟩ := List.eq_nil_or_concat rest
      · -- the level is the same before the last mark
        rw [List.append_nil] at hsplit
        subst hsplit
        rw [← List.cons_append, run_append] at hzero
        have hlast := hs.last
        cases hend : run g (run g [fresh] before) (x :: after) with
        | nil =>
            rw [fresh] at hend
            rw [hend] at hlast
            simp at hlast
        | cons f fs =>
            rw [hend, run_cons, step_mark hm] at hzero
            rw [← fresh, hend] at hlast
            simp only [run_nil, List.length_cons] at hzero hlast
            omega
      · rw [List.concat_eq_append, ← List.append_assoc] at hsplit
        obtain ⟨rfl, -⟩ := List.append_inj' hsplit rfl
        rw [← List.cons_append, stays_append] at hs
        have hlast := hs.1.last
        rw [fresh] at hzero
        omega
  · intro h before x after hx hmark
    obtain rfl | ⟨zs, rfl, rfl⟩ := split_last hx
    · exact .inl rfl
    · right
      obtain hall | hr := h
      · rw [hall x (by simp)] at hmark
        cases hmark
      · obtain ⟨⟨f, hrun⟩, -, hencl⟩ := hr.kept [] (.inl rfl)
        have hlt := hencl.at_mark hmark
        refine ⟨?_, zs, [m], rfl, ?_⟩
        · rw [level, fresh]
          simp at hlt
          omega
        · rw [level_zero_iff, fresh, hrun]
          simp

end Single

end Migr8.Lib.Bodies
