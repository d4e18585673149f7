import Migr8.Lib.Interaction

namespace Migr8.Lib.Process

open Interaction

variable {Q : Type} {R : Q → Type} {O S σ ε α β : Type}

/-- A program with local state and exceptions that talks to a server. The local
state survives an exception, and nothing but a request reaches the server. -/
def Proc (Q : Type) (R : Q → Type) (σ ε α : Type) : Type := σ → Act Q R (Except ε α × σ)

namespace Proc

def pure (a : α) : Proc Q R σ ε α := fun l => .done (.ok a, l)

def bind (m : Proc Q R σ ε α) (f : α → Proc Q R σ ε β) : Proc Q R σ ε β :=
  fun l => (m l).bind fun
    | (.ok a, l) => f a l
    | (.error e, l) => .done (.error e, l)

instance : Monad (Proc Q R σ ε) where
  pure := Proc.pure
  bind := Proc.bind

def throw (e : ε) : Proc Q R σ ε α := fun l => .done (.error e, l)

def tryCatch (m : Proc Q R σ ε α) (h : ε → Proc Q R σ ε α) : Proc Q R σ ε α :=
  fun l => (m l).bind fun
    | (.ok a, l) => .done (.ok a, l)
    | (.error e, l) => h e l

def attempt (m : Proc Q R σ ε α) : Proc Q R σ ε (Except ε α) :=
  fun l => (m l).bind fun (r, l) => .done (.ok r, l)

/-- The cleanup runs however the body ends, and its own exception wins. -/
def finally_ (m : Proc Q R σ ε α) (cleanup : Proc Q R σ ε Unit) : Proc Q R σ ε α :=
  fun l => (m l).bind fun (r, l) => (cleanup l).bind fun
    | (.ok _, l) => .done (r, l)
    | (.error e, l) => .done (.error e, l)

def get (f : σ → α) : Proc Q R σ ε α := fun l => .done (.ok (f l), l)

def modify (f : σ → σ) : Proc Q R σ ε Unit := fun l => .done (.ok (), f l)

theorem pure_bind (a : α) (f : α → Proc Q R σ ε β) : (Pure.pure a >>= f : Proc Q R σ ε β) = f a := rfl

theorem throw_bind (e : ε) (f : α → Proc Q R σ ε β) : (throw e >>= f : Proc Q R σ ε β) = throw e := rfl

def request (q : σ → Q) (read : ∀ l, R (q l) → Except ε α) : Proc Q R σ ε α :=
  fun l => .ask (q l) (fun r => .done (read l r, l))

end Proc

variable (serve : (q : Q) → O → S → R q × S) (A : Q → S → O → Prop) (I : Q → S → Prop)

def wp (m : Proc Q R σ ε α) (P : Except ε α → σ → S → Prop) (l : σ) (s : S) : Prop :=
  Interaction.wp serve A I (fun x s => P x.1 x.2 s) (m l) s

variable {serve A I} {P P' : Except ε α → σ → S → Prop} {l : σ} {s : S}

theorem wp_throw (e : ε) :
    wp serve A I (Proc.throw e : Proc Q R σ ε α) P l s ↔ P (.error e) l s := Iff.rfl

theorem wp_get (f : σ → α) :
    wp serve A I (Proc.get f : Proc Q R σ ε α) P l s ↔ P (.ok (f l)) l s := Iff.rfl

theorem wp_modify {P : Except ε Unit → σ → S → Prop} (f : σ → σ) :
    wp serve A I (Proc.modify f : Proc Q R σ ε Unit) P l s ↔ P (.ok ()) (f l) s := Iff.rfl

theorem wp_bind {P : Except ε β → σ → S → Prop} (m : Proc Q R σ ε α) (f : α → Proc Q R σ ε β) :
    wp serve A I (m >>= f) P l s ↔
      wp serve A I m (fun r l s => match r with
        | .ok a => wp serve A I (f a) P l s
        | .error e => P (.error e) l s) l s := by
  refine (Interaction.wp_bind _ _ _).trans (iff_of_eq ?_)
  congr 1
  funext x s
  obtain ⟨r, l⟩ := x
  cases r <;> rfl

theorem wp_tryCatch (m : Proc Q R σ ε α) (h : ε → Proc Q R σ ε α) :
    wp serve A I (m.tryCatch h) P l s ↔
      wp serve A I m (fun r l s => match r with
        | .ok a => P (.ok a) l s
        | .error e => wp serve A I (h e) P l s) l s := by
  refine (Interaction.wp_bind _ _ _).trans (iff_of_eq ?_)
  congr 1
  funext x s
  obtain ⟨r, l⟩ := x
  cases r <;> rfl

theorem wp_attempt {P : Except ε (Except ε α) → σ → S → Prop} (m : Proc Q R σ ε α) :
    wp serve A I m.attempt P l s ↔ wp serve A I m (fun r => P (.ok r)) l s :=
  Interaction.wp_bind _ _ _

theorem wp_finally (m : Proc Q R σ ε α) (cleanup : Proc Q R σ ε Unit) :
    wp serve A I (m.finally_ cleanup) P l s ↔
      wp serve A I m (fun r => wp serve A I cleanup (fun c l s => match c with
        | .ok _ => P r l s
        | .error e => P (.error e) l s)) l s := by
  refine (Interaction.wp_bind _ _ _).trans (iff_of_eq ?_)
  congr 1
  funext x s
  obtain ⟨r, l⟩ := x
  refine propext ((Interaction.wp_bind _ _ _).trans (iff_of_eq ?_))
  congr 1
  funext y s
  obtain ⟨c, l⟩ := y
  cases c <;> rfl

theorem wp_request (q : σ → Q) (read : ∀ l, R (q l) → Except ε α) :
    wp serve A I (Proc.request q read) P l s ↔
      I (q l) s ∧ ∀ o, A (q l) s o → P (read l (serve (q l) o s).1) l (serve (q l) o s).2 := Iff.rfl

theorem wp_mono {m : Proc Q R σ ε α} (h : wp serve A I m P l s)
    (hP : ∀ r l s, P r l s → P' r l s) : wp serve A I m P' l s :=
  Interaction.wp_mono h (fun x s => hP x.1 x.2 s)

theorem wp_top (m : Proc Q R σ ε α) : wp serve A (fun _ _ => True) m (fun _ _ _ => True) l s :=
  Interaction.wp_top _ _

theorem wp_kept {J : S → Prop} (hJ : ∀ q o s, J s → J (serve q o s).2) (m : Proc Q R σ ε α) (hs : J s) :
    wp serve A (fun _ _ => True) m (fun _ _ s => J s) l s :=
  Interaction.wp_kept hJ _ hs

theorem wp_bind_top {P : Except ε β → σ → S → Prop} {m : Proc Q R σ ε α} {f : α → Proc Q R σ ε β}
    (hf : ∀ a l s, wp serve A (fun _ _ => True) (f a) P l s) (he : ∀ e l s, P (.error e) l s) :
    wp serve A (fun _ _ => True) (m >>= f) P l s := by
  refine (wp_bind m f).2 (wp_mono (wp_top m) ?_)
  rintro (e | a) l s -
  · exact he e l s
  · exact hf a l s

theorem wp_and {J : Q → S → Prop} {m : Proc Q R σ ε α}
    (h : wp serve A I m P l s) (h' : wp serve A J m P' l s) :
    wp serve A (fun q s => I q s ∧ J q s) m (fun r l s => P r l s ∧ P' r l s) l s :=
  Interaction.wp_and h h'

theorem wp_weaken {A' : Q → S → O → Prop} {I' : Q → S → Prop} {m : Proc Q R σ ε α}
    (h : wp serve A I m P l s) (hA : ∀ q s o, A' q s o → A q s o) (hI : ∀ q s, I q s → I' q s) :
    wp serve A' I' m P l s :=
  Interaction.wp_weaken h hA hI

theorem wp_recorded {m : Proc Q R σ ε α} (h : wp serve A I m P l s) (past : List (Interaction.Exchange Q O S)) :
    wp (Interaction.recorded serve) (fun q x o => A q x.1 o) (fun q x => I q x.1) m (fun r l x => P r l x.1) l
      (s, past) :=
  Interaction.wp_recorded h past

theorem wp_ite (c : Prop) [Decidable c] (m n : Proc Q R σ ε α) :
    wp serve A I (if c then m else n) P l s ↔
      if c then wp serve A I m P l s else wp serve A I n P l s := by
  split <;> rfl

section Meets

variable (serve : (q : Q) → O → S → R q × S) (A : Q → S → O → Prop) (J : Q → S → Prop)

def Meets (m : Proc Q R σ ε α) (l : σ) (s : S) : Prop := Interaction.Meets serve A J (m l) s

variable {serve A J} {I : Q → S → Prop} {l : σ} {s : S} {m : Proc Q R σ ε α}

theorem Meets.request {q : σ → Q} {read : ∀ l, R (q l) → Except ε α} (h : J (q l) s) :
    Meets serve A J (Proc.request q read) l s := Or.inl h

theorem Meets.bind (h : Meets serve A J m l s) (f : α → Proc Q R σ ε β) : Meets serve A J (m >>= f) l s :=
  Interaction.Meets.bind h _

theorem Meets.tryCatch (h : Meets serve A J m l s) (f : ε → Proc Q R σ ε α) : Meets serve A J (m.tryCatch f) l s :=
  Interaction.Meets.bind h _

theorem Meets.attempt (h : Meets serve A J m l s) : Meets serve A J m.attempt l s :=
  Interaction.Meets.bind h _

/-- The request is made by what follows a part that always returns. -/
theorem Meets.after {f : α → Proc Q R σ ε β}
    (h : wp serve A I m (fun r l s => match r with
      | .ok a => Meets serve A J (f a) l s
      | .error _ => False) l s) : Meets serve A J (m >>= f) l s := by
  apply Interaction.Meets.of_wp (I := I)
  apply Interaction.wp_mono h
  rintro ⟨r, l'⟩ s' hr
  cases r with
  | ok a => exact hr
  | error e => exact hr.elim

end Meets

section Maintains

variable (serve : (q : Q) → O → S → R q × S) (A : Q → S → O → Prop) (I : Q → S → Prop) (J : σ → S → Prop)

def Maintains (m : Proc Q R σ ε α) : Prop := ∀ l s, J l s → wp serve A I m (fun _ l' s' => J l' s') l s

variable {serve A I J} {m n : Proc Q R σ ε α}

theorem Maintains.pure (a : α) : Maintains serve A I J (Pure.pure a : Proc Q R σ ε α) := fun _ _ h => h

theorem Maintains.throw (e : ε) : Maintains serve A I J (Proc.throw e : Proc Q R σ ε α) := fun _ _ h => h

theorem Maintains.get (f : σ → α) : Maintains serve A I J (Proc.get f : Proc Q R σ ε α) := fun _ _ h => h

theorem Maintains.modify {f : σ → σ} (h : ∀ l s, J l s → J (f l) s) :
    Maintains serve A I J (Proc.modify f : Proc Q R σ ε Unit) := h

theorem Maintains.request {q : σ → Q} {read : ∀ l, R (q l) → Except ε α}
    (h : ∀ l s, J l s → I (q l) s ∧ ∀ o, A (q l) s o → J l (serve (q l) o s).2) :
    Maintains serve A I J (Proc.request q read) := h

theorem Maintains.bind {f : α → Proc Q R σ ε β} (hm : Maintains serve A I J m) (hf : ∀ a, Maintains serve A I J (f a)) :
    Maintains serve A I J (m >>= f) := by
  intro l s h
  apply (wp_bind m f).2
  apply wp_mono (hm l s h)
  intro r l' s' h'
  cases r with
  | ok a => exact hf a l' s' h'
  | error e => exact h'

theorem Maintains.tryCatch {f : ε → Proc Q R σ ε α} (hm : Maintains serve A I J m)
    (hf : ∀ e, Maintains serve A I J (f e)) :
    Maintains serve A I J (m.tryCatch f) := by
  intro l s h
  apply (wp_tryCatch m f).2
  apply wp_mono (hm l s h)
  intro r l' s' h'
  cases r with
  | ok a => exact h'
  | error e => exact hf e l' s' h'

theorem Maintains.attempt (hm : Maintains serve A I J m) : Maintains serve A I J m.attempt :=
  fun l s h => (wp_attempt m).2 (hm l s h)

theorem Maintains.ite {c : Prop} [Decidable c] (hm : Maintains serve A I J m) (hn : Maintains serve A I J n) :
    Maintains serve A I J (if c then m else n) := by
  split
  · exact hm
  · exact hn

def Leads (serve : (q : Q) → O → S → R q × S) (A : Q → S → O → Prop) (I : Q → S → Prop) (J J' : σ → S → Prop)
    (m : Proc Q R σ ε α) : Prop := ∀ l s, J l s → wp serve A I m (fun _ l' s' => J' l' s') l s

variable {J' : σ → S → Prop}

theorem Maintains.leads (hm : Maintains serve A I J m) (hJ : ∀ l s, J l s → J' l s) : Leads serve A I J J' m :=
  fun l s h => wp_mono (hm l s h) fun _ l' s' h' => hJ l' s' h'

theorem Maintains.bind_leads {f : α → Proc Q R σ ε β} (hm : Maintains serve A I J m) (hJ : ∀ l s, J l s → J' l s)
    (hf : ∀ a, Leads serve A I J J' (f a)) : Leads serve A I J J' (m >>= f) := by
  intro l s h
  apply (wp_bind m f).2
  apply wp_mono (hm l s h)
  intro r l' s' h'
  cases r with
  | ok a => exact hf a l' s' h'
  | error e => exact hJ l' s' h'

theorem Leads.ite {c : Prop} [Decidable c] (hm : Leads serve A I J J' m) (hn : Leads serve A I J J' n) :
    Leads serve A I J J' (if c then m else n) := by
  split
  · exact hm
  · exact hn

end Maintains

end Migr8.Lib.Process
