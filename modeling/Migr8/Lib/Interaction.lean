import Mathlib.Data.List.Basic

namespace Migr8.Lib.Interaction

variable {Q : Type} {R : Q → Type} {O S α β γ : Type}

/-- A computation that either is finished or waits for the reply to one
request. Every path is finite; the replies decide which one is taken. -/
inductive Act (Q : Type) (R : Q → Type) (α : Type) where
  | done (a : α)
  | ask (q : Q) (next : R q → Act Q R α)

def Act.bind : Act Q R α → (α → Act Q R β) → Act Q R β
  | .done a, f => f a
  | .ask q next, f => .ask q (fun r => (next r).bind f)

structure Exchange (Q O S : Type) where
  request : Q
  before : S
  outcome : O

section Play

variable (serve : (q : Q) → O → S → R q × S)

/-- Serve one request per outcome. The run stops where the outcomes stop, so
the finite lists of outcomes enumerate every point a run can be cut at. -/
def play : List O → Act Q R α → S → List (Exchange Q O S) × Act Q R α × S
  | [], t, s => ([], t, s)
  | _ :: _, .done a, s => ([], .done a, s)
  | o :: os, .ask q next, s =>
      let rest := play os (next (serve q o s).1) (serve q o s).2
      (⟨q, s, o⟩ :: rest.1, rest.2)

def trace (os : List O) (t : Act Q R α) (s : S) : List (Exchange Q O S) := (play serve os t s).1

def final (os : List O) (t : Act Q R α) (s : S) : S := (play serve os t s).2.2

def result (os : List O) (t : Act Q R α) (s : S) : Option α :=
  match (play serve os t s).2.1 with
  | .done a => some a
  | .ask _ _ => none

/-- Weakest precondition of a computation: `I` holds wherever a request is made,
and `P` holds of every result, for all outcomes that `A` admits. -/
def wp (A : Q → S → O → Prop) (I : Q → S → Prop) (P : α → S → Prop) : Act Q R α → S → Prop
  | .done a, s => P a s
  | .ask q next, s => I q s ∧ ∀ o, A q s o → wp A I P (next (serve q o s).1) (serve q o s).2

variable {serve} {A : Q → S → O → Prop} {I : Q → S → Prop} {P P' : α → S → Prop}

theorem wp_bind {P : β → S → Prop} (t : Act Q R α) (f : α → Act Q R β) (s : S) :
    wp serve A I P (t.bind f) s ↔ wp serve A I (fun a s => wp serve A I P (f a) s) t s := by
  induction t generalizing s with
  | done a => rfl
  | ask q next ih => simp only [Act.bind, wp, ih]

theorem wp_mono {t : Act Q R α} {s : S} (h : wp serve A I P t s) (hP : ∀ a s, P a s → P' a s) :
    wp serve A I P' t s := by
  induction t generalizing s with
  | done a => exact hP a s h
  | ask q next ih => exact ⟨h.1, fun o ho => ih _ (h.2 o ho)⟩

theorem wp_top (t : Act Q R α) (s : S) : wp serve A (fun _ _ => True) (fun _ _ => True) t s := by
  induction t generalizing s with
  | done a => trivial
  | ask q next ih => exact ⟨trivial, fun o _ => ih _ _⟩

theorem wp_kept {J : S → Prop} (hJ : ∀ q o s, J s → J (serve q o s).2) (t : Act Q R α) {s : S} (hs : J s) :
    wp serve A (fun _ _ => True) (fun _ s => J s) t s := by
  induction t generalizing s with
  | done a => exact hs
  | ask q next ih => exact ⟨trivial, fun o _ => ih _ (hJ q o s hs)⟩

theorem wp_weaken {A' : Q → S → O → Prop} {I' : Q → S → Prop} {t : Act Q R α} {s : S}
    (h : wp serve A I P t s) (hA : ∀ q s o, A' q s o → A q s o) (hI : ∀ q s, I q s → I' q s) :
    wp serve A' I' P t s := by
  induction t generalizing s with
  | done a => exact h
  | ask q next ih => exact ⟨hI q s h.1, fun o ho => ih _ (h.2 o (hA q s o ho))⟩

theorem wp_and {J : Q → S → Prop} {t : Act Q R α} {s : S}
    (h : wp serve A I P t s) (h' : wp serve A J P' t s) :
    wp serve A (fun q s => I q s ∧ J q s) (fun a s => P a s ∧ P' a s) t s := by
  induction t generalizing s with
  | done a => exact ⟨h, h'⟩
  | ask q next ih => exact ⟨⟨h.1, h'.1⟩, fun o ho => ih _ (h.2 o ho) (h'.2 o ho)⟩

/-- What a weakest precondition says about every cut of every run: the requests
made so far satisfy `I`, and what is left still has its precondition. -/
theorem play_wp {t : Act Q R α} {s : S} (h : wp serve A I P t s) (os : List O)
    (hA : ∀ x ∈ trace serve os t s, A x.request x.before x.outcome) :
    (∀ x ∈ trace serve os t s, I x.request x.before) ∧
      wp serve A I P (play serve os t s).2.1 (final serve os t s) := by
  induction os generalizing t s with
  | nil => exact ⟨by simp [trace, play], h⟩
  | cons o os ih =>
      cases t with
      | done a => exact ⟨by simp [trace, play], h⟩
      | ask q next =>
          simp only [trace, play, List.mem_cons, forall_eq_or_imp] at hA ⊢
          obtain ⟨hi, hrest⟩ := ih (h.2 o hA.1) hA.2
          exact ⟨⟨h.1, hi⟩, hrest⟩

/-- A run takes its outcomes from those it is given. -/
theorem outcome_mem {os : List O} {t : Act Q R α} {s : S} {x : Exchange Q O S} (hx : x ∈ trace serve os t s) :
    x.outcome ∈ os := by
  induction os generalizing t s with
  | nil => exact absurd hx (by simp [trace, play])
  | cons o os ih =>
      cases t with
      | done a => exact absurd hx (by simp [trace, play])
      | ask q next =>
          rcases List.mem_cons.1 hx with rfl | hx
          · exact List.mem_cons_self
          · exact List.mem_cons_of_mem _ (ih hx)

/-- What holds wherever a request is made and wherever the run ends holds wherever
it is cut. -/
theorem final_wp {J : S → Prop} {t : Act Q R α} {s : S} (h : wp serve A I P t s) (os : List O)
    (hA : ∀ x ∈ trace serve os t s, A x.request x.before x.outcome) (hI : ∀ q s, I q s → J s)
    (hP : ∀ a s, P a s → J s) : J (final serve os t s) := by
  have hrest := (play_wp h os hA).2
  cases ht : (play serve os t s).2.1 with
  | done a => rw [ht] at hrest; exact hP a _ hrest
  | ask q next => rw [ht] at hrest; exact hI q _ hrest.1

/-- A relation that every served request keeps relates the ends of a run. -/
theorem final_trans {T : S → S → Prop} (hrefl : ∀ s, T s s) (htrans : ∀ a b c, T a b → T b c → T a c)
    {t : Act Q R α} {s : S} (os : List O)
    (h : ∀ x ∈ trace serve os t s, T x.before (serve x.request x.outcome x.before).2) :
    T s (final serve os t s) := by
  induction os generalizing t s with
  | nil => exact hrefl s
  | cons o os ih =>
      cases t with
      | done a => exact hrefl s
      | ask q next =>
          simp only [trace, play, List.mem_cons, forall_eq_or_imp] at h
          exact htrans _ _ _ h.1 (ih h.2)

/-- A relation that no answer breaks leads from each exchange of a run to the ones after
it, and to where the run ends. -/
theorem trace_ordered {T : S → S → Prop} (hrefl : ∀ s, T s s) (htrans : ∀ a b c, T a b → T b c → T a c)
    (hstep : ∀ q o s, T s (serve q o s).2) (os : List O) (t : Act Q R α) (s : S) :
    (∀ x ∈ trace serve os t s, T s x.before ∧ T (serve x.request x.outcome x.before).2 (final serve os t s)) ∧
      (trace serve os t s).Pairwise fun x y => T (serve x.request x.outcome x.before).2 y.before := by
  induction os generalizing t s with
  | nil => exact ⟨fun x hx => absurd hx (by simp [trace, play]), by simp [trace, play]⟩
  | cons o os ih =>
      cases t with
      | done a => exact ⟨fun x hx => absurd hx (by simp [trace, play]), by simp [trace, play]⟩
      | ask q next =>
          obtain ⟨hends, hpairs⟩ := ih (next (serve q o s).1) (serve q o s).2
          have htrace : trace serve (o :: os) (.ask q next) s =
              ⟨q, s, o⟩ :: trace serve os (next (serve q o s).1) (serve q o s).2 := rfl
          have hfinal : T (serve q o s).2 (final serve os (next (serve q o s).1) (serve q o s).2) :=
            final_trans hrefl htrans os fun x _ => hstep _ _ _
          rw [htrace]
          constructor
          · intro x hx
            rcases List.mem_cons.1 hx with rfl | hx
            · exact ⟨hrefl s, hfinal⟩
            · exact ⟨htrans _ _ _ (hstep q o s) (hends x hx).1, (hends x hx).2⟩
          · exact List.pairwise_cons.2 ⟨fun y hy => (hends y hy).1, hpairs⟩

theorem result_wp {t : Act Q R α} {s : S} (h : wp serve A I P t s) (os : List O)
    (hA : ∀ x ∈ trace serve os t s, A x.request x.before x.outcome) {a : α}
    (ha : result serve os t s = some a) : P a (final serve os t s) := by
  have hw := (play_wp h os hA).2
  unfold result at ha
  split at ha
  · next b hb => rw [hb] at hw; cases ha; exact hw
  · cases ha

end Play

section Whole

variable (serve : (q : Q) → O → S → R q × S)

def whole : Act Q R α → (Nat → O) → S → List (Exchange Q O S) × α × S
  | .done a, _, s => ([], a, s)
  | .ask q next, os, s =>
      let rest := whole (next (serve q (os 0) s).1) (fun n => os (n + 1)) (serve q (os 0) s).2
      (⟨q, s, os 0⟩ :: rest.1, rest.2)

def Meets (A : Q → S → O → Prop) (J : Q → S → Prop) : Act Q R α → S → Prop
  | .done _, _ => False
  | .ask q next, s => J q s ∨ ∀ o, A q s o → Meets A J (next (serve q o s).1) (serve q o s).2

variable {serve} {A : Q → S → O → Prop} {I J : Q → S → Prop} {P : α → S → Prop}

/-- A whole run is the one that some number of outcomes plays. -/
theorem whole_eq_play (t : Act Q R α) (os : Nat → O) (s : S) :
    ∃ n, play serve ((List.range n).map os) t s =
      ((whole serve t os s).1, .done (whole serve t os s).2.1, (whole serve t os s).2.2) := by
  induction t generalizing os s with
  | done a => exact ⟨0, rfl⟩
  | ask q next ih =>
      obtain ⟨n, hn⟩ := ih (serve q (os 0) s).1 (fun n => os (n + 1)) (serve q (os 0) s).2
      refine ⟨n + 1, ?_⟩
      have hmap : (List.range (n + 1)).map os = os 0 :: (List.range n).map (fun n => os (n + 1)) := by
        rw [List.range_succ_eq_map, List.map_cons, List.map_map]
        rfl
      rw [hmap, play, hn, whole]

theorem whole_wp {t : Act Q R α} {os : Nat → O} {s : S} (h : wp serve A I P t s)
    (hA : ∀ n q s, A q s (os n)) :
    (∀ x ∈ (whole serve t os s).1, I x.request x.before) ∧ P (whole serve t os s).2.1 (whole serve t os s).2.2 := by
  induction t generalizing os s with
  | done a => exact ⟨fun x hx => absurd hx List.not_mem_nil, h⟩
  | ask q next ih =>
      obtain ⟨hrest, hp⟩ := ih _ (h.2 (os 0) (hA 0 q s)) (fun n => hA (n + 1))
      refine ⟨?_, hp⟩
      intro x hx
      rcases List.mem_cons.1 hx with rfl | hx
      · exact h.1
      · exact hrest x hx

theorem whole_meets {t : Act Q R α} {os : Nat → O} {s : S} (h : Meets serve A J t s)
    (hA : ∀ n q s, A q s (os n)) : ∃ x ∈ (whole serve t os s).1, J x.request x.before := by
  induction t generalizing os s with
  | done a => exact h.elim
  | ask q next ih =>
      rcases h with h | h
      · exact ⟨⟨q, s, os 0⟩, List.mem_cons_self, h⟩
      · obtain ⟨x, hx, hj⟩ := ih _ (h (os 0) (hA 0 q s)) (fun n => hA (n + 1))
        exact ⟨x, List.mem_cons_of_mem _ hx, hj⟩

theorem Meets.bind {t : Act Q R α} {s : S} (h : Meets serve A J t s) (f : α → Act Q R β) :
    Meets serve A J (t.bind f) s := by
  induction t generalizing s with
  | done a => exact h.elim
  | ask q next ih => exact h.imp (fun h => h) fun h o ho => ih _ (h o ho)

theorem Meets.of_wp {t : Act Q R α} {s : S} {f : α → Act Q R β}
    (h : wp serve A I (fun a s => Meets serve A J (f a) s) t s) : Meets serve A J (t.bind f) s := by
  induction t generalizing s with
  | done a => exact h
  | ask q next ih => exact .inr fun o ho => ih _ (h.2 o ho)

end Whole

section Echo

variable {C : Type} (note : Q → C → C)

/-- The server that may reply anything. Its state is what a monitor has noted of
the requests so far. -/
def echo (q : Q) (o : (q : Q) → R q) (c : C) : R q × C := (o q, note q c)

def noted (c : C) (xs : List (Exchange Q O S)) : C := xs.foldl (fun c x => note x.request c) c

variable [∀ q, Nonempty (R q)] {note} {serve : (q : Q) → O → S → R q × S} {I : Q → C → Prop}
  {P : α → C → Prop}

theorem wp_echo_ask {q : Q} {next : R q → Act Q R α} {c : C}
    (h : wp (echo note) (fun _ _ _ => True) I P (.ask q next) c) (r : R q) :
    wp (echo note) (fun _ _ _ => True) I P (next r) (note q c) := by
  classical
  have ho := h.2 (Function.update (fun q => Classical.choice inferInstance) q r) trivial
  simpa only [echo, Function.update_self] using ho

/-- A property of all replies is a property of every server, next to whatever
its requests leave unchanged there. -/
theorem wp_of_echo {A : Q → S → O → Prop} {J : S → Prop} {t : Act Q R α} {c : C} {s : S}
    (h : wp (echo note) (fun _ _ _ => True) I P t c) (hs : J s)
    (hJ : ∀ q c o s, I q c → A q s o → J s → J (serve q o s).2) :
    wp serve A (fun q s => (∃ c, I q c) ∧ J s) (fun a s => (∃ c, P a c) ∧ J s) t s := by
  induction t generalizing c s with
  | done a => exact ⟨⟨c, h⟩, hs⟩
  | ask q next ih =>
      refine ⟨⟨⟨c, h.1⟩, hs⟩, fun o ho => ?_⟩
      exact ih _ (wp_echo_ask h _) (hJ q c o s h.1 ho hs)

/-- Along every run each request is made as allowed after the ones before it. -/
theorem trace_echo {t : Act Q R α} {c : C} (h : wp (echo note) (fun _ _ _ => True) I P t c)
    (os : List O) (s : S) {pre post : List (Exchange Q O S)} {x : Exchange Q O S}
    (hx : trace serve os t s = pre ++ x :: post) : I x.request (noted note c pre) := by
  induction os generalizing t s c pre with
  | nil => simp [trace, play] at hx
  | cons o os ih =>
      cases t with
      | done a => simp [trace, play] at hx
      | ask q next =>
          simp only [trace, play] at hx
          cases pre with
          | nil =>
              rw [List.nil_append, List.cons.injEq] at hx
              rw [← hx.1]
              exact h.1
          | cons y pre =>
              rw [List.cons_append, List.cons.injEq] at hx
              rw [noted, List.foldl_cons, ← hx.1]
              exact ih (wp_echo_ask h _) _ hx.2

theorem result_echo {t : Act Q R α} {c : C} (h : wp (echo note) (fun _ _ _ => True) I P t c)
    (os : List O) (s : S) {a : α} (ha : result serve os t s = some a) :
    P a (noted note c (trace serve os t s)) := by
  induction os generalizing t s c with
  | nil =>
      cases t with
      | done b => simp only [result, play, Option.some.injEq] at ha; rw [← ha]; exact h
      | ask q next => simp [result, play] at ha
  | cons o os ih =>
      cases t with
      | done b => simp only [result, play, Option.some.injEq] at ha; rw [← ha]; exact h
      | ask q next => exact ih (wp_echo_ask h _) _ ha

/-- What every request takes over from the one before it reaches the end of the run. -/
theorem chain_echo {T : C → C → Prop} (htrans : ∀ a b c, T a b → T b c → T a c) {v : Q → C}
    {f : α → C} {t : Act Q R α} {c : C}
    (h : wp (echo fun q _ => v q) (fun _ _ _ => True) (fun q c => T c (v q)) (fun a c => T c (f a)) t c)
    (os : List O) (s : S) {a : α} (ha : result serve os t s = some a) :
    T c (f a) ∧ ∀ x ∈ trace serve os t s, T (v x.request) (f a) := by
  induction os generalizing t s c with
  | nil =>
      cases t with
      | done b =>
          simp only [result, play, Option.some.injEq] at ha
          rw [← ha]
          exact ⟨h, nofun⟩
      | ask q next => simp [result, play] at ha
  | cons o os ih =>
      cases t with
      | done b =>
          simp only [result, play, Option.some.injEq] at ha
          rw [← ha]
          exact ⟨h, nofun⟩
      | ask q next =>
          obtain ⟨hlast, hrest⟩ := ih (wp_echo_ask h _) (serve q o s).2 ha
          refine ⟨htrans _ _ _ h.1 hlast, ?_⟩
          simp only [trace, play, List.mem_cons, forall_eq_or_imp]
          exact ⟨hlast, hrest⟩

end Echo

section Past

variable (serve : (q : Q) → O → S → R q × S)

def recorded (q : Q) (o : O) (x : S × List (Exchange Q O S)) : R q × S × List (Exchange Q O S) :=
  ((serve q o x.1).1, (serve q o x.1).2, x.2 ++ [⟨q, x.1, o⟩])

variable {serve} {A : Q → S → O → Prop} {I : Q → S → Prop} {P : α → S → Prop}

theorem wp_recorded {t : Act Q R α} {s : S} (h : wp serve A I P t s) (past : List (Exchange Q O S)) :
    wp (recorded serve) (fun q x o => A q x.1 o) (fun q x => I q x.1) (fun a x => P a x.1) t (s, past) := by
  induction t generalizing s past with
  | done a => exact h
  | ask q next ih => exact ⟨h.1, fun o ho => ih _ (h.2 o ho) _⟩

/-- Each request is made as allowed after everything before it. -/
theorem trace_recorded {J : Q → S × List (Exchange Q O S) → Prop} {P : α → S × List (Exchange Q O S) → Prop}
    {t : Act Q R α} {s : S} {past : List (Exchange Q O S)}
    (h : wp (recorded serve) (fun _ _ _ => True) J P t (s, past)) (os : List O) {pre post : List (Exchange Q O S)}
    {x : Exchange Q O S} (hx : trace serve os t s = pre ++ x :: post) : J x.request (x.before, past ++ pre) := by
  induction os generalizing t s past pre with
  | nil => simp [trace, play] at hx
  | cons o os ih =>
      cases t with
      | done a => simp [trace, play] at hx
      | ask q next =>
          simp only [trace, play] at hx
          cases pre with
          | nil =>
              rw [List.nil_append, List.cons.injEq] at hx
              rw [← hx.1, List.append_nil]
              exact h.1
          | cons y pre =>
              rw [List.cons_append, List.cons.injEq] at hx
              have hrest := ih (h.2 o trivial) hx.2
              rw [← hx.1, List.append_cons]
              exact hrest

theorem result_recorded {J : Q → S × List (Exchange Q O S) → Prop} {P : α → S × List (Exchange Q O S) → Prop}
    {t : Act Q R α} {s : S} {past : List (Exchange Q O S)}
    (h : wp (recorded serve) (fun _ _ _ => True) J P t (s, past)) (os : List O) {a : α}
    (ha : result serve os t s = some a) : P a (final serve os t s, past ++ trace serve os t s) := by
  induction os generalizing t s past with
  | nil =>
      cases t with
      | done b =>
          simp only [result, play, Option.some.injEq] at ha
          rw [← ha]
          simp only [final, trace, play, List.append_nil]
          exact h
      | ask q next => simp [result, play] at ha
  | cons o os ih =>
      cases t with
      | done b =>
          simp only [result, play, Option.some.injEq] at ha
          rw [← ha]
          simp only [final, trace, play, List.append_nil]
          exact h
      | ask q next =>
          have hrest := ih (h.2 o trivial) ha
          simp only [trace, play]
          rw [List.append_cons]
          exact hrest

end Past

end Migr8.Lib.Interaction
