import Migr8.ReservedNames
import Migr8.Verdicts

namespace Migr8.Prediction

open Errors Model Latch Driver Database World Adapters Metadata Context Engine StateValidate PlanRule Verdicts
open Teardown Inspection Initialization Opening Snapshots Outcomes Acceptance ReadOnly Inquiry DurableHistory
    ReservedNames
open Lib.Process
open Lib.Interaction (whole_meets)

variable {input : Input} {d d' : Db} {s s' : Session} {l : Local} {os os' : Nat → Outcome}

section Codes

def refusalCodes : List Exit := [.usage, .validation, .metadataDamaged]

theorem verifyBindings_exit {c : Config} {marker : Option MetaRow} {e : Migr8Error}
    (h : verifyBindings c marker = .error e) : e.exitCode ∈ refusalCodes := by
  unfold verifyBindings at h
  split at h
  · cases h; decide
  · split at h
    · cases h; simp [refusalCodes, damaged, Migr8Error.exitCode, ErrorKind.exitCode]
    · repeat' split at h
      all_goals cases h
      all_goals simp [refusalCodes, usage, Migr8Error.exitCode, ErrorKind.exitCode]

theorem SourceError.exit {e : Exc} (h : SourceError e) : ReadOnly.exitOf (.error e) ∈ refusalCodes := by
  obtain ⟨m, rfl, hm⟩ := h
  change m.exitCode ∈ refusalCodes
  rcases hm with hm | hm
  · rw [hm]
    decide
  · rw [hm]
    decide

end Codes

section Exits

end Exits

section Commands

def planned (q : Request) (_ : Session) : Prop := q.op = .log "plan"

theorem meets_run {J : Request → Session → Prop} (hs : AtRest d s)
    (hm : ∀ s', AtRest d s' → Meets (serve input.adapter) (fun _ _ o => Answered o) J (migrate input) {} s') :
    Meets (serve input.adapter) (fun _ _ o => Answered o) J (Engine.run input) {} s := by
  apply Meets.tryCatch
  apply Meets.after (I := fun _ _ => True)
  apply wp_mono (log_at_rest hs answers_answered (I := fun _ _ => True) (E := fun _ _ => False) (p := True) trivial)
  intro r l₁ s₁ h
  cases r with
  | error e => exact h.2 trivial
  | ok u =>
      obtain ⟨rfl, hs₁⟩ := h
      exact Meets.bind (Meets.attempt (hm s₁ hs₁)) _

end Commands

section Failing

variable (adapter : Adapter) (hh : Housed d)

include hh

end Failing

section Example

def ready : Db := (newNamespace .sqlite).db

end Example

end Migr8.Prediction
