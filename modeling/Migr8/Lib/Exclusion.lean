import Mathlib.Logic.Function.Basic
import Mathlib.Logic.Relation
import Migr8.Lib.Interaction

namespace Migr8.Lib.Exclusion

open Interaction

/-- Where a party stands: it waits for the lock, works under it, or is about to leave. -/
inductive Phase where
  | waiting | working | parting
  deriving DecidableEq, Repr

/-- Which requests ask for the lock and which give it back, by which outcomes the server
does so, and which replies say that the lock was given. -/
structure Locking (Q : Type) (R : Q → Type) (O : Type) where
  acquires : Q → Bool
  releases : Q → Bool
  grants : Q → O → Bool
  frees : Q → O → Bool
  confirms : (q : Q) → R q → Bool

/-- A process and its session. Once the session has ended, nothing that the process asks
for reaches the server, and any reply may come back. -/
structure Party (Q : Type) (R : Q → Type) (V α : Type) where
  program : Act Q R α
  own : V
  alive : Bool := true

structure System (ι : Type) (Q : Type) (R : Q → Type) (D V α : Type) where
  shared : D
  holder : Option ι := none
  party : ι → Party Q R V α

variable {ι Q : Type} {R : Q → Type} {O D V α : Type}

section Steps

variable [DecidableEq ι] (L : Locking Q R O) (serve : (q : Q) → O → D × V → R q × (D × V))

def holderAfter (q : Q) (o : O) (i : ι) (holder : Option ι) : Option ι :=
  if L.acquires q && L.grants q o then some i
  else if L.releases q && L.frees q o && holder == some i then none
  else holder

/-- One step of one party. The lock is given only while nobody holds it, and it is free
again when its holder's session ends. -/
inductive Step (x : System ι Q R D V α) : System ι Q R D V α → Prop
  | served {i : ι} {q : Q} {next : R q → Act Q R α} (o : O) (ha : (x.party i).alive = true)
      (hp : (x.party i).program = .ask q next)
      (hfree : L.acquires q = true → L.grants q o = true → x.holder = none) :
      Step x
        { shared := (serve q o (x.shared, (x.party i).own)).2.1
          holder := holderAfter L q o i x.holder
          party := Function.update x.party i
            ⟨next (serve q o (x.shared, (x.party i).own)).1, (serve q o (x.shared, (x.party i).own)).2.2, true⟩ }
  | unserved {i : ι} {q : Q} {next : R q → Act Q R α} (r : R q) (ha : (x.party i).alive = false)
      (hp : (x.party i).program = .ask q next) :
      Step x { x with party := Function.update x.party i ⟨next r, (x.party i).own, false⟩ }
  | ended (i : ι) :
      Step x
        { x with
          holder := if x.holder = some i then none else x.holder
          party := Function.update x.party i { x.party i with alive := false } }

def Reachable (x y : System ι Q R D V α) : Prop := Relation.ReflTransGen (Step L serve) x y

/-- A party's next request is served. One that waits for a lock that is taken goes on waiting. -/
def turn (i : ι) (o : O) (x : System ι Q R D V α) : System ι Q R D V α :=
  match (x.party i).program with
  | .done _ => x
  | .ask q next =>
      if !(x.party i).alive || L.acquires q && L.grants q o && x.holder.isSome then x
      else
        { shared := (serve q o (x.shared, (x.party i).own)).2.1
          holder := holderAfter L q o i x.holder
          party := Function.update x.party i
            ⟨next (serve q o (x.shared, (x.party i).own)).1, (serve q o (x.shared, (x.party i).own)).2.2, true⟩ }

def schedule : List (ι × O) → System ι Q R D V α → System ι Q R D V α
  | [], x => x
  | (i, o) :: rest, x => schedule rest (turn L serve i o x)

variable {L serve} {x : System ι Q R D V α}

theorem reachable_turn (i : ι) (o : O) : Reachable L serve x (turn L serve i o x) := by
  cases hp : (x.party i).program with
  | done a =>
      rw [turn, hp]
      exact .refl
  | ask q next =>
      rw [turn, hp]
      dsimp only
      split
      · exact .refl
      · next h =>
          obtain ⟨halive, hheld⟩ := not_or.1 fun h' => h (Bool.or_eq_true_iff.2 h')
          refine .single (.served o ?_ hp fun ha hg => ?_)
          · simpa using halive
          · rw [ha, hg] at hheld
            exact Option.not_isSome_iff_eq_none.1 hheld

theorem reachable_schedule (turns : List (ι × O)) : Reachable L serve x (schedule L serve turns x) := by
  induction turns generalizing x with
  | nil => exact .refl
  | cons t turns ih => exact (reachable_turn t.1 t.2).trans ih

end Steps

section Discipline

variable (L : Locking Q R O) (serve : (q : Q) → O → D × V → R q × (D × V))

def Apart (q : Q) : Prop :=
  ∀ o d d' v, (serve q o (d, v)).1 = (serve q o (d', v)).1 ∧ (serve q o (d, v)).2 = (d, (serve q o (d', v)).2.2)

def follow (q : Q) (r : R q) : Phase → Phase
  | .waiting => if L.acquires q then (if L.confirms q r then .working else .parting) else .waiting
  | .working => if L.releases q then .parting else .working
  | .parting => .parting

theorem follow_working {L : Locking Q R O} {q : Q} {r : R q} (h : L.releases q = false) :
    follow L q r .working = .working := by
  rw [follow, h]
  rfl

def Allowed (q : Q) : Phase → Prop
  | .waiting => Apart serve q
  | .working => True
  | .parting => Apart serve q ∧ L.acquires q = false

def monitor (q : Q) (o : (q : Q) → R q) (phase : Phase) : R q × Phase := (o q, follow L q (o q) phase)

/-- Whatever is replied, what is shared is touched between the acquisition and the release only. -/
def Polite (phase : Phase) (t : Act Q R α) : Prop :=
  wp (monitor L) (fun _ _ _ => True) (Allowed L serve) (fun _ _ => True) t phase

theorem Polite.ask [∀ q, Nonempty (R q)] {phase : Phase} {q : Q} {next : R q → Act Q R α}
    (h : Polite L serve phase (.ask q next)) :
    Allowed L serve q phase ∧ ∀ r, Polite L serve (follow L q r phase) (next r) := by
  refine ⟨h.1, fun r => ?_⟩
  classical
  have ho := h.2 (Function.update (fun q => Classical.choice inferInstance) q r) trivial
  simp only [monitor, Function.update_self] at ho
  exact ho

end Discipline

section Serial

variable (serve : (q : Q) → O → D × V → R q × (D × V)) (program : ι → Act Q R α) (fresh : V)

/-- What runs make of the shared state one after the other, each cut anywhere. -/
inductive Serial (d₀ : D) : D → Prop
  | refl : Serial d₀ d₀
  | run {d : D} (i : ι) (os : List O) (h : Serial d₀ d) : Serial d₀ (final serve os (program i) (d, fresh)).1

end Serial

variable {serve : (q : Q) → O → D × V → R q × (D × V)}

theorem play_snoc {t t' : Act Q R α} {s s' : D × V} {os : List O} {q : Q} {next : R q → Act Q R α}
    (h : (play serve os t s).2 = (t', s')) (ht : t' = .ask q next) (o : O) :
    (play serve (os ++ [o]) t s).2 = (next (serve q o s').1, (serve q o s').2) := by
  induction os generalizing t s with
  | nil =>
      cases h
      subst ht
      rfl
  | cons o' os ih =>
      cases t with
      | done a =>
          cases h
          cases ht
      | ask q' next' => exact ih h

section Play

variable {S S' : Type} {serve : (q : Q) → O → S → R q × S} {serve' : (q : Q) → O → S' → R q × S'} {view : S → S'}

/-- What a process is about to ask for is in the record of what it does next. -/
theorem mem_trace_snoc {t t' : Act Q R α} {s s' : S} {os : List O} {q : Q} {next : R q → Act Q R α}
    (h : (play serve os t s).2 = (t', s')) (ht : t' = .ask q next) (o : O) :
    ⟨q, s', o⟩ ∈ trace serve (os ++ [o]) t s := by
  induction os generalizing t s with
  | nil =>
      cases h
      subst ht
      exact List.mem_cons_self
  | cons o' os ih =>
      cases t with
      | done a =>
          cases h
          cases ht
      | ask q' next' => exact List.mem_cons_of_mem _ (ih h)

/-- Two servers of which one sees the other's state lead a process the same way. -/
theorem play_view (hv : ∀ q o s, serve' q o (view s) = ((serve q o s).1, view (serve q o s).2)) (os : List O)
    (t : Act Q R α) (s : S) :
    (play serve' os t (view s)).2 = ((play serve os t s).2.1, view (play serve os t s).2.2) := by
  induction os generalizing t s with
  | nil => rfl
  | cons o os ih =>
      cases t with
      | done a => rfl
      | ask q next =>
          simp only [play, hv]
          exact ih _ _

end Play

section Serializable

variable {L : Locking Q R O} {program : ι → Act Q R α} {fresh : V} {d₀ : D}
  {x y : System ι Q R D V α} {i j : ι}

def Aside (L : Locking Q R O) (serve : (q : Q) → O → D × V → R q × (D × V)) (program : ι → Act Q R α) (fresh : V)
    (x : System ι Q R D V α) (j : ι) : Prop :=
  (x.party j).alive = true →
    (Polite L serve .waiting (x.party j).program ∧
      ∃ os, ∀ d, (play serve os (program j) (d, fresh)).2 = ((x.party j).program, (d, (x.party j).own))) ∨
    Polite L serve .parting (x.party j).program

/-- The party that works under the lock, on what it found when it got it. -/
structure Active (L : Locking Q R O) (serve : (q : Q) → O → D × V → R q × (D × V)) (program : ι → Act Q R α) (fresh : V)
    (d : D) (x : System ι Q R D V α) (i : ι) : Prop where
  alive : (x.party i).alive = true
  holder : x.holder = some i
  polite : Polite L serve .working (x.party i).program
  played : ∃ os, (play serve os (program i) (d, fresh)).2 = ((x.party i).program, (x.shared, (x.party i).own))

inductive Ordered (L : Locking Q R O) (serve : (q : Q) → O → D × V → R q × (D × V)) (program : ι → Act Q R α)
    (fresh : V)
    (d₀ : D) (x : System ι Q R D V α) : Prop
  | idle (h : Serial serve program fresh d₀ x.shared) (hj : ∀ j, Aside L serve program fresh x j)
  | busy {i : ι} {d : D} (h : Serial serve program fresh d₀ d) (hi : Active L serve program fresh d x i)
      (hj : ∀ j, j ≠ i → Aside L serve program fresh x j)

theorem Active.serial {d : D} (h : Active L serve program fresh d x i) (hd : Serial serve program fresh d₀ d) :
    Serial serve program fresh d₀ x.shared := by
  obtain ⟨os, hos⟩ := h.played
  have hrun := hd.run i os
  unfold final at hrun
  rw [hos] at hrun
  exact hrun

theorem Ordered.serial (h : Ordered L serve program fresh d₀ x) : Serial serve program fresh d₀ x.shared := by
  cases h with
  | idle h => exact h
  | busy h hi => exact hi.serial h

/-- Another party's step leaves a party where it was. -/
theorem Aside.other (h : Aside L serve program fresh x j) (hp : y.party j = x.party j) :
    Aside L serve program fresh y j := by
  unfold Aside at h ⊢
  rw [hp]
  exact h

theorem Aside.dead (h : (x.party j).alive = false) : Aside L serve program fresh x j := by
  intro ha
  rw [h] at ha
  cases ha

theorem Active.other {d : D} (h : Active L serve program fresh d x i) (hp : y.party i = x.party i)
    (hs : y.shared = x.shared) (hh : y.holder = x.holder) : Active L serve program fresh d y i := by
  refine ⟨?_, hh.trans h.holder, ?_, ?_⟩
  · rw [hp]
    exact h.alive
  · rw [hp]
    exact h.polite
  · rw [hp, hs]
    exact h.played

/-- One party moves, the others stay where they were. -/
theorem Aside.all {p : ι → Prop} (hi : Aside L serve program fresh y i) (hj : ∀ j, j ≠ i → y.party j = x.party j)
    (h : ∀ j, p j → Aside L serve program fresh x j) (j : ι) (hp : j ≠ i → p j) : Aside L serve program fresh y j := by
  by_cases he : j = i
  · rw [he]
    exact hi
  · exact (h j (hp he)).other (hj j he)

variable [DecidableEq ι]

theorem holderAfter_of_not {q : Q} {o : O} {holder : Option ι} (ha : L.acquires q = true → L.grants q o = false)
    (hr : L.releases q = true → holder ≠ some i) : holderAfter L q o i holder = holder := by
  unfold holderAfter
  split
  · next h =>
      obtain ⟨hq, ho⟩ := Bool.and_eq_true_iff.1 h
      rw [ha hq] at ho
      cases ho
  · split
    · next h =>
        obtain ⟨h, hi⟩ := Bool.and_eq_true_iff.1 h
        exact absurd (beq_iff_eq.1 hi) (hr (Bool.and_eq_true_iff.1 h).1)
    · rfl

section Moves

variable [∀ q, Nonempty (R q)] {q : Q} {next : R q → Act Q R α} {o : O}

omit [DecidableEq ι] in
/-- A party that stands aside and is not told that it has the lock stays aside, and
touches nothing. -/
theorem Aside.served (h : Aside L serve program fresh x i)
    (ha : (x.party i).alive = true) (hp : (x.party i).program = .ask q next)
    (hc : L.acquires q = true → L.confirms q (serve q o (x.shared, (x.party i).own)).1 = false)
    (hy : y.party i =
    ⟨next (serve q o (x.shared, (x.party i).own)).1, (serve q o (x.shared, (x.party i).own)).2.2, true⟩) :
    (serve q o (x.shared, (x.party i).own)).2.1 = x.shared ∧ Aside L serve program fresh y i := by
  unfold Aside
  rw [hy]
  rcases h ha with ⟨hpolite, os, hos⟩ | hpolite
  · rw [hp] at hpolite hos
    obtain ⟨hapart, hnext⟩ := hpolite.ask
    refine ⟨congrArg Prod.fst (hapart o _ x.shared _).2, fun _ => ?_⟩
    have hfollow := hnext (serve q o (x.shared, (x.party i).own)).1
    by_cases hq : L.acquires q = true
    · simp only [follow, hq, hc hq, if_true, Bool.false_eq_true, if_false] at hfollow
      exact .inr hfollow
    · simp only [follow, hq] at hfollow
      refine .inl ⟨hfollow, os ++ [o], fun d => ?_⟩
      obtain ⟨hreply, hstate⟩ := hapart o d x.shared (x.party i).own
      rw [play_snoc (hos d) rfl o, hreply, hstate]
  · rw [hp] at hpolite
    obtain ⟨⟨hapart, -⟩, hnext⟩ := hpolite.ask
    exact ⟨congrArg Prod.fst (hapart o _ x.shared _).2, fun _ => .inr (hnext _)⟩

theorem Aside.confirmed (h : Aside L serve program fresh x i)
    (ha : (x.party i).alive = true) (hp : (x.party i).program = .ask q next) (hq : L.acquires q = true)
    (hg : L.grants q o = true) (hc : L.confirms q (serve q o (x.shared, (x.party i).own)).1 = true)
    (hshared : y.shared = (serve q o (x.shared, (x.party i).own)).2.1)
    (hholder : y.holder = holderAfter L q o i x.holder)
    (hy : y.party i =
    ⟨next (serve q o (x.shared, (x.party i).own)).1, (serve q o (x.shared, (x.party i).own)).2.2, true⟩) :
    Active L serve program fresh x.shared y i := by
  rcases h ha with ⟨hpolite, os, hos⟩ | hpolite
  · rw [hp] at hpolite hos
    have hfollow := hpolite.ask.2 (serve q o (x.shared, (x.party i).own)).1
    simp only [follow, hq, hc, if_true] at hfollow
    refine ⟨?_, ?_, ?_, os ++ [o], ?_⟩
    · rw [hy]
    · rw [hholder, holderAfter, hq, hg]
      rfl
    · rw [hy]
      exact hfollow
    · rw [hy, hshared, play_snoc (hos x.shared) rfl o]
  · rw [hp] at hpolite
    have hnot := hpolite.ask.1.2
    rw [hq] at hnot
    cases hnot

theorem Active.served {d : D} (h : Active L serve program fresh d x i)
    (hp : (x.party i).program = .ask q next) (hshared : y.shared = (serve q o (x.shared, (x.party i).own)).2.1)
    (hholder : y.holder = holderAfter L q o i x.holder)
    (hy : y.party i =
    ⟨next (serve q o (x.shared, (x.party i).own)).1, (serve q o (x.shared, (x.party i).own)).2.2, true⟩)
    (hg : L.acquires q = true → L.grants q o = false) (hd : Serial serve program fresh d₀ d) :
    Active L serve program fresh d y i ∨
      Serial serve program fresh d₀ y.shared ∧ Aside L serve program fresh y i := by
  obtain ⟨os, hos⟩ := h.played
  have hpolite := h.polite
  rw [hp] at hpolite hos
  have hfollow := hpolite.ask.2 (serve q o (x.shared, (x.party i).own)).1
  have hplay := play_snoc hos rfl o
  by_cases hr : L.releases q = true
  · refine .inr ⟨?_, fun _ => ?_⟩
    · have hrun := hd.run i (os ++ [o])
      unfold final at hrun
      rw [hplay] at hrun
      rw [hshared]
      exact hrun
    · simp only [follow, hr, if_true] at hfollow
      rw [hy]
      exact .inr hfollow
  · simp only [follow, hr] at hfollow
    refine .inl ⟨?_, ?_, ?_, os ++ [o], ?_⟩
    · rw [hy]
    · rw [hholder, holderAfter_of_not hg (fun h => absurd h hr)]
      exact h.holder
    · rw [hy]
      exact hfollow
    · rw [hy, hshared, hplay]

variable (htrue : ∀ q o s, L.acquires q = true → L.confirms q (serve q o s).1 = true → L.grants q o = true)

include htrue

theorem Ordered.served (h : Ordered L serve program fresh d₀ x) (ha : (x.party i).alive = true)
    (hp : (x.party i).program = .ask q next) (hfree : L.acquires q = true → L.grants q o = true → x.holder = none)
    (hshared : y.shared = (serve q o (x.shared, (x.party i).own)).2.1)
    (hholder : y.holder = holderAfter L q o i x.holder)
    (hy : y.party i =
    ⟨next (serve q o (x.shared, (x.party i).own)).1, (serve q o (x.shared, (x.party i).own)).2.2, true⟩)
    (hj : ∀ j, j ≠ i → y.party j = x.party j) : Ordered L serve program fresh d₀ y := by
  cases h with
  | idle hserial haside =>
      by_cases hc : L.acquires q = true ∧ L.confirms q (serve q o (x.shared, (x.party i).own)).1 = true
      · exact .busy hserial ((haside i).confirmed ha hp hc.1 (htrue _ _ _ hc.1 hc.2) hc.2 hshared hholder hy)
          fun j hne => (haside j).other (hj j hne)
      · obtain ⟨hsame, hi⟩ := (haside i).served ha hp
          (fun hq => Bool.eq_false_iff.2 fun h => hc ⟨hq, h⟩) hy
        refine .idle ?_ fun j => hi.all hj (p := fun _ => True) (fun j _ => haside j) j fun _ => trivial
        rw [hshared, hsame]
        exact hserial
  | @busy k d hserial hk haside =>
      have hheld : x.holder = some k := hk.holder
      -- the lock is taken, so it is not given to anybody
      have hgrants (hq : L.acquires q = true) : L.grants q o = false := by
        refine Bool.eq_false_iff.2 fun hg => ?_
        rw [hfree hq hg] at hheld
        cases hheld
      by_cases hik : i = k
      · subst hik
        rcases hk.served hp hshared hholder hy hgrants hserial with hactive | ⟨hserial', hi⟩
        · exact .busy hserial hactive fun j hne => (haside j hne).other (hj j hne)
        · exact .idle hserial' fun j => hi.all hj haside j id
      · obtain ⟨hsame, hi⟩ := (haside i hik).served ha hp
          (fun hq => Bool.eq_false_iff.2 fun h => Bool.eq_false_iff.1 (hgrants hq) (htrue _ _ _ hq h)) hy
        have hstays : holderAfter L q o i x.holder = x.holder :=
          holderAfter_of_not hgrants fun _ hh => hik (Option.some.inj (hh.symm.trans hheld))
        exact .busy hserial (hk.other (hj k fun h => hik h.symm) (hshared.trans hsame) (hholder.trans hstays))
          fun j hne => hi.all hj haside j fun _ => hne

end Moves

/-- A party whose session is over, or ends now, touches nothing. -/
theorem Ordered.gone (h : Ordered L serve program fresh d₀ x) (hi : (y.party i).alive = false)
    (hj : ∀ j, j ≠ i → y.party j = x.party j) (hshared : y.shared = x.shared)
    (hholder : x.holder ≠ some i → y.holder = x.holder) : Ordered L serve program fresh d₀ y := by
  cases h with
  | idle hserial haside =>
      refine .idle ?_ fun j =>
        (Aside.dead hi).all hj (p := fun _ => True) (fun j _ => haside j) j fun _ => trivial
      rw [hshared]
      exact hserial
  | @busy k d hserial hk haside =>
      by_cases hki : k = i
      · subst hki
        refine .idle ?_ fun j => (Aside.dead hi).all hj haside j id
        rw [hshared]
        exact hk.serial hserial
      · have hne : x.holder ≠ some i := by
          rw [hk.holder]
          exact fun h => hki (Option.some.inj h)
        exact .busy hserial (hk.other (hj k hki) hshared (hholder hne))
          fun j hnk => (Aside.dead hi).all hj haside j fun _ => hnk

variable [∀ q, Nonempty (R q)]
  (htrue : ∀ q o s, L.acquires q = true → L.confirms q (serve q o s).1 = true → L.grants q o = true)

include htrue

theorem Ordered.step (h : Ordered L serve program fresh d₀ x) (hs : Step L serve x y) :
    Ordered L serve program fresh d₀ y := by
  cases hs with
  | served o ha hp hfree =>
      exact h.served htrue ha hp hfree rfl rfl (Function.update_self ..) fun j hj => Function.update_of_ne hj ..
  | @unserved i q next r ha hp =>
      refine h.gone (i := i) ?_ (fun j hj => Function.update_of_ne hj ..) rfl fun _ => rfl
      dsimp only
      rw [Function.update_self]
  | ended i =>
      refine h.gone (i := i) ?_ (fun j hj => Function.update_of_ne hj ..) rfl fun hne => if_neg hne
      dsimp only
      rw [Function.update_self]

/-- Every party is at its start, with a session of its own. -/
structure Starting (L : Locking Q R O) (serve : (q : Q) → O → D × V → R q × (D × V)) (program : ι → Act Q R α)
    (fresh : V)
    (x : System ι Q R D V α) : Prop where
  party : ∀ j, x.party j = ⟨program j, fresh, true⟩
  polite : ∀ j, Polite L serve .waiting (program j)

omit htrue [DecidableEq ι] [∀ q, Nonempty (R q)] in
theorem Starting.ordered (h : Starting L serve program fresh x) : Ordered L serve program fresh x.shared x := by
  refine .idle .refl fun j _ => .inl ⟨?_, [], fun d => ?_⟩
  · rw [h.party j]
    exact h.polite j
  · rw [h.party j]
    rfl

theorem Reachable.ordered (h : Starting L serve program fresh x) (hr : Reachable L serve x y) :
    Ordered L serve program fresh x.shared y := by
  induction hr with
  | refl => exact h.ordered
  | tail _ hs ih => exact ih.step htrue hs

/-- However the parties' steps interleave, what is shared is what runs one after the
other make of it. -/
theorem serializable (h : Starting L serve program fresh x) (hr : Reachable L serve x y) :
    Serial serve program fresh x.shared y.shared :=
  (Reachable.ordered htrue h hr).serial

/-- Whoever touches what is shared holds the lock, and goes on from what the runs
before it have made of that. -/
theorem exclusive (h : Starting L serve program fresh x) (hr : Reachable L serve x y) {q : Q} {next : R q → Act Q R α}
    (ha : (y.party i).alive = true) (hp : (y.party i).program = .ask q next) (hq : ¬ Apart serve q) :
    y.holder = some i ∧ ∃ d os, Serial serve program fresh x.shared d ∧
      (play serve os (program i) (d, fresh)).2 = (.ask q next, (y.shared, (y.party i).own)) := by
  have hnot (haside : Aside L serve program fresh y i) : False := by
    rcases haside ha with ⟨hpolite, -⟩ | hpolite
    · rw [hp] at hpolite
      exact hq hpolite.ask.1
    · rw [hp] at hpolite
      exact hq hpolite.ask.1.1
  cases Reachable.ordered htrue h hr with
  | idle _ haside => exact (hnot (haside i)).elim
  | @busy k d hserial hk haside =>
      by_cases hik : i = k
      · subst hik
        obtain ⟨os, hos⟩ := hk.played
        exact ⟨hk.holder, d, os, hserial, hp ▸ hos⟩
      · exact (hnot (haside i hik)).elim

end Serializable

end Migr8.Lib.Exclusion
