import Migr8.Runs
import Migr8.Snapshots

namespace Migr8.Outcomes

open Errors Model Latch Driver Database World Adapters Metadata Engine StateValidate Rules Discipline Obedience
open EngineObedience Teardown RunObedience Sessions Shape Forward Frames Transactions Transitions
open Inspection Initialization Opening Snapshots Lib.Process
open Lib.Interaction (Exchange whole_wp)

variable {α : Type} {adapter : Adapter} {os : Nat → Outcome} {A : Request → Session → Outcome → Prop}
  {I : Request → Session → Prop} {input : Input} {d : Db} {p : Prop}
  {s : Session} {l : Local}

def exitFor (r : Except Exc Unit) (l : Local) : Exit :=
  match r with
  | .ok _ => .ok
  | .error e => terminalExit e l

def Closes (I : Request → Session → Prop) (d : Db) : Prop := ∀ q s, s.db = d → closingOp q.op = true → I q s

structure Ended (R : Except Exc Unit → Local → Session → Prop) (x : Except Exc Report × Local) (s : Session) :
    Prop where
  how : ∃ r l s₁, R r l s₁ ∧ s.db = s₁.db ∧ exitOf x = exitFor r l

/-- A run is what `migrate` makes of it: its end changes nothing that is durable
and reports what `migrate` has come to. -/
theorem wp_run_of_migrate {R : Except Exc Unit → Local → Session → Prop} (hs : AtRest d s) (hA : Answers p A)
    (hstart : Closes I d) (hmig : ∀ s', AtRest d s' → wp (serve input.adapter) A I (migrate input) R {} s')
    (hend : ∀ r l s', R r l s' → Closes I s'.db) :
    wp (serve input.adapter) A I (Engine.run input) (fun r' l' s' =>
      Ended R (r', l') s' ∨ ¬ p ∧ s'.db = d ∧ exitOf (r', l') = .migrationFailed) {} s := by
  have hclosing {m : Run Report} {P : Except Exc Report → Local → RunLatch → Prop} {l₁ : Local} {s₁ : Session}
      (h : Safe input.adapter (fun op => closingOp op = true) m P l₁ l₁.latch) (hI : Closes I s₁.db) :
      wp (serve input.adapter) A I m (fun r l' s' => (∃ c, P r l' c) ∧ s'.db = s₁.db) l₁ s₁ := by
    have hlift := wp_lift (A := A) (J := fun s' => s'.db = s₁.db) h rfl
      fun q o s' hq _ hs' => (closing_db hq).trans hs'
    apply wp_weaken hlift (fun _ _ _ h => h)
    rintro q s' ⟨⟨c, hq⟩, hs'⟩
    exact hI q s' hs' hq.kind
  apply RunObedience.wp_run.2
  apply wp_perform.2
  refine ⟨hstart _ s hs.db rfl, fun o ho => ?_⟩
  have hlog : Ends p (fun s => s.db = d) (fun _ _ => False) (fun _ l' s' => l' = {} ∧ AtRest d s')
      (serveLog "run_start" none o s).1 {} (serveLog "run_start" none o s).2 := log_ends hs fun hp => hA hp _ _ _ ho
  change (match (serveLog "run_start" none o s).1 with
    | .ok _ => wp _ _ _ (migrate input) _ {} (serveLog "run_start" none o s).2
    | .error e => wp _ _ _ (settling input (Proc.throw e)) _ {} (serveLog "run_start" none o s).2)
  cases hr : (serveLog "run_start" none o s).1 with
  | error e =>
      rw [hr] at hlog
      have hthrow :
          Safe input.adapter (fun op => closingOp op = true) (settling input (Proc.throw e)) _ {} RunLatch.fresh :=
        Safe.settling_throw (fun _ h => h) (Later.refl _) rfl rfl
      have hdb : (serveLog "run_start" none o s).2.db = d := hlog.1
      apply wp_mono (hclosing hthrow (by rw [hdb]; exact hstart))
      rintro r' l' s' ⟨⟨c', -, -, hx⟩, hdb'⟩
      exact .inr ⟨fun hp => hlog.2 hp, hdb'.trans hdb, hx⟩
  | ok u =>
      rw [hr] at hlog
      have hs₁ : AtRest d (serveLog "run_start" none o s).2 := hlog.2
      generalize (serveLog "run_start" none o s).2 = s₁ at hs₁
      have hsafe : Safe input.adapter (fun _ => True) (migrate input) _ {} RunLatch.fresh :=
        Safe.migrate (fun _ => trivial) {} RunLatch.fresh (Later.refl _) rfl
      have hwatch := wp_lift (A := A) (J := fun _ => True) (s := s₁) hsafe trivial fun _ _ _ _ _ _ => trivial
      apply wp_mono (wp_weaken (wp_and (hmig s₁ hs₁) hwatch) (fun _ _ _ h => h) fun _ _ h => h.1)
      rintro r l₂ s₂ ⟨hR, ⟨c, -, ht, ho⟩, -⟩
      have hfin : Safe input.adapter (fun op => closingOp op = true)
          (settling input (conclude input r)) _ l₂ l₂.latch :=
        Safe.settling_conclude (fun _ h => h) (Later.refl l₂.latch) ht
      apply wp_mono (hclosing hfin (hend r l₂ s₂ hR))
      rintro r' l' s' ⟨⟨c', -, -, hrec⟩, hdb⟩
      refine .inl ⟨r, l₂, s₂, hR, hdb, ?_⟩
      rw [hrec.exitOf]
      cases r with
      | error e => rfl
      | ok u => exact congrArg Prod.snd ho.unrecorded

theorem terminalExit_of_open {e : Exc} (hl : l.latch.state = .open) : terminalExit e l = match e with
    | .migr8 m => m.exitCode
    | _ => .migrationFailed := by
  have hnone : l.latch.error = none := (RunLatch.error_eq_none_iff _).2 hl
  unfold terminalExit terminalError
  rw [hnone]
  cases e <;> rfl

section Whole

/-- Every call is answered, and setup finds nothing wrong. -/
def AllAnswered (os : Nat → Outcome) : Prop := ∀ n, Answered (os n)

/-- What a whole run comes to: its result and the state of the process, and the session. -/
abbrev whole (adapter : Adapter) (m : Run α) (os : Nat → Outcome) (s : Session) : (Except Exc α × Local) × Session :=
  (Lib.Interaction.whole (serve adapter) (m {}) os s).2

abbrev asked (adapter : Adapter) (m : Run α) (os : Nat → Outcome) (s : Session) :
    List (Exchange Request Outcome Session) :=
  (Lib.Interaction.whole (serve adapter) (m {}) os s).1

theorem answers_answered : Answers True (fun _ _ o => Answered o) := fun _ _ _ _ h => h

theorem whole_answered {m : Run α} {P : Except Exc α → Local → Session → Prop}
    (h : wp (serve adapter) (fun _ _ o => Answered o) I m P {} s) (ho : AllAnswered os) :
    P (whole adapter m os s).1.1 (whole adapter m os s).1.2 (whole adapter m os s).2 :=
  (whole_wp h fun n _ _ => ho n).2

end Whole

end Migr8.Outcomes
