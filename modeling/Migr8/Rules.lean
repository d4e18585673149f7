import Migr8.Engine

namespace Migr8.Rules

open Errors Model Latch Driver Database World Adapters Lib.Process

variable {α β O S : Type} {serve : (q : Request) → O → S → Reply q × S} {A : Request → S → O → Prop}
  {I : Request → S → Prop} {P : Except Exc α → Local → S → Prop} {l : Local} {s : S}

theorem wp_perform {op : Op} {P : Except Exc (Answer op) → Local → S → Prop} :
    wp serve A I (perform op) P l s ↔
      I ⟨op, l⟩ s ∧ ∀ o, A ⟨op, l⟩ s o → P (serve ⟨op, l⟩ o s).1 l (serve ⟨op, l⟩ o s).2 := Iff.rfl

theorem wp_raise (e : Migr8Error) :
    wp serve A I (raise e : Run α) P l s ↔ P (.error (.migr8 e)) l s := Iff.rfl

theorem wp_onlyIf {P : Except Exc Unit → Local → S → Prop} (b : Bool) (m : Run Unit) :
    wp serve A I (onlyIf b m) P l s ↔ if b then wp serve A I m P l s else P (.ok ()) l s := by
  cases b <;> rfl

theorem wp_checkLatch {P : Except Exc Unit → Local → S → Prop} :
    wp serve A I checkLatch P l s ↔
      match l.latch.error with
      | some e => P (.error (.migr8 e)) l s
      | none => P (.ok ()) l s := by
  unfold checkLatch
  rw [wp_bind, wp_get]
  cases l.latch.error <;> rfl

def guardOutcome (adapter : Adapter) (g : Guard) (e : Exc) (l : Local) : Exc × Local :=
  match e with
  | .migr8 e => (.migr8 e, l)
  | e =>
      if isDefinite adapter g.commitCapable e then (e, l)
      else (.migr8 (g.unknownOutcome adapter e),
        { l with latch := l.latch.latchUnknown (g.unknownOutcome adapter e) rfl })

theorem guardOutcome_cases (adapter : Adapter) (g : Guard) (e : Exc) (l : Local) :
    guardOutcome adapter g e l = (e, l) ∨
      isDefinite adapter g.commitCapable e = false ∧ e.kind? = none ∧
      guardOutcome adapter g e l = (.migr8 (g.unknownOutcome adapter e),
        { l with latch := l.latch.latchUnknown (g.unknownOutcome adapter e) rfl }) := by
  cases hd : isDefinite adapter g.commitCapable e with
  | true => cases e <;> simp [guardOutcome, hd]
  | false => cases e <;> simp [guardOutcome, hd, Exc.kind?]

theorem wp_guarded (adapter : Adapter) (g : Guard) (m : Run α) :
    wp serve A I (guarded adapter g m) P l s ↔
      match l.latch.error with
      | some e => P (.error (.migr8 e)) l s
      | none => wp serve A I m (fun r l s =>
          match r with
          | .ok a => P (.ok a) l s
          | .error e => P (.error (guardOutcome adapter g e l).1) (guardOutcome adapter g e l).2 s) l s := by
  unfold guarded
  rw [wp_bind, wp_checkLatch]
  cases l.latch.error with
  | some e => rfl
  | none =>
      simp only [wp_tryCatch]
      refine iff_of_eq (congrArg (fun P => wp serve A I m P l s) ?_)
      funext r l s
      cases r with
      | ok a => rfl
      | error e =>
          cases e <;> simp only [guardOutcome] <;> first | rfl | (split <;> rfl)

theorem wp_perform_bind {op : Op} {f : Answer op → Run α} (hI : I ⟨op, l⟩ s)
    (hok : ∀ o a, A ⟨op, l⟩ s o → (serve ⟨op, l⟩ o s).1 = .ok a →
      wp serve A I (f a) P l (serve ⟨op, l⟩ o s).2)
    (herr : ∀ o e, A ⟨op, l⟩ s o → (serve ⟨op, l⟩ o s).1 = .error e → P (.error e) l (serve ⟨op, l⟩ o s).2) :
    wp serve A I (perform op >>= f) P l s := by
  refine (wp_bind _ _).2 (wp_perform.2 ⟨hI, fun o ho => ?_⟩)
  cases hr : (serve ⟨op, l⟩ o s).1 with
  | ok a => exact hok o a ho hr
  | error e => exact herr o e ho hr

theorem wp_perform_tryCatch {op : Op} {h : Exc → Run (Answer op)} {P : Except Exc (Answer op) → Local → S → Prop}
    (hI : I ⟨op, l⟩ s)
    (hok : ∀ o a, A ⟨op, l⟩ s o → (serve ⟨op, l⟩ o s).1 = .ok a → P (.ok a) l (serve ⟨op, l⟩ o s).2)
    (herr : ∀ o e, A ⟨op, l⟩ s o → (serve ⟨op, l⟩ o s).1 = .error e →
      wp serve A I (h e) P l (serve ⟨op, l⟩ o s).2) :
    wp serve A I ((perform op).tryCatch h) P l s := by
  refine (wp_tryCatch _ _).2 (wp_perform.2 ⟨hI, fun o ho => ?_⟩)
  cases hr : (serve ⟨op, l⟩ o s).1 with
  | ok a => exact hok o a ho hr
  | error e => exact herr o e ho hr

theorem wp_exec {c : Config} {op : Op} {operation phase : String} {id : Option String}
    {P : Except Exc (Answer op) → Local → S → Prop} (hI : l.latch.state = .open → I ⟨op, l⟩ s)
    (hlatched : ∀ e, l.latch.error = some e → P (.error (.migr8 e)) l s)
    (hok : l.latch.state = .open → ∀ o a, A ⟨op, l⟩ s o → (serve ⟨op, l⟩ o s).1 = .ok a →
    P (.ok a) l (serve ⟨op, l⟩ o s).2)
    (herr : ∀ o e, A ⟨op, l⟩ s o → (serve ⟨op, l⟩ o s).1 = .error e →
      P (.error (guardOutcome c.adapter ⟨operation, phase, id, false⟩ e l).1)
        (guardOutcome c.adapter ⟨operation, phase, id, false⟩ e l).2 (serve ⟨op, l⟩ o s).2) :
    wp serve A I (exec c op operation phase id) P l s := by
  refine (wp_guarded _ _ _).2 ?_
  cases hl : l.latch.error with
  | some e => exact hlatched e hl
  | none =>
      have hopen : l.latch.state = .open := (RunLatch.error_eq_none_iff _).1 hl
      refine wp_perform.2 ⟨hI hopen, fun o ho => ?_⟩
      cases hr : (serve ⟨op, l⟩ o s).1 with
      | ok a => exact hok hopen o a ho hr
      | error e => exact herr o e ho hr

theorem wp_liftError_bind {x : Except Migr8Error β} {f : β → Run α}
    (hok : ∀ b, x = .ok b → wp serve A I (f b) P l s) (herr : ∀ e, P (.error (.migr8 e)) l s) :
    wp serve A I (Engine.liftError x >>= f) P l s := by
  cases x with
  | error e => exact herr e
  | ok b => exact hok b rfl

end Migr8.Rules
