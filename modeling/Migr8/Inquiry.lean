import Migr8.ReadOnly
import Migr8.Outcomes

namespace Migr8.Inquiry

open Errors Model Latch Driver Database World Adapters Metadata Engine StateValidate Rules Inspection Initialization
open Opening Snapshots Outcomes ReadOnly Lib.Process

variable {α β : Type} {A : Request → Session → Outcome → Prop} {input : Input} {adapter : Adapter} {d : Db}
  {s : Session} {l : Local} {o : Outcome}

/-- A part of a run that always returns, and then as `Q` says. -/
abbrev Serves (adapter : Adapter) (A : Request → Session → Outcome → Prop) (m : Run α) (l : Local) (s : Session)
    (Q : α → Local → Session → Prop) : Prop :=
  wp (serve adapter) A (fun _ _ => True) m (Ends True (fun _ => True) (fun _ _ => False) Q) l s

variable {Q : α → Local → Session → Prop}

theorem Serves.bind {Q' : β → Local → Session → Prop} {m : Run α} {f : α → Run β} (hm : Serves adapter A m l s Q)
    (hf : ∀ a l s, Q a l s → Serves adapter A (f a) l s Q') : Serves adapter A (m >>= f) l s Q' := Ends.bind hm hf

theorem Serves.mono {Q' : α → Local → Session → Prop} {m : Run α} (hm : Serves adapter A m l s Q)
    (h : ∀ a l s, Q a l s → Q' a l s) : Serves adapter A m l s Q' :=
  Ends.mono hm h (fun _ h => h) fun _ _ h => h

theorem Serves.tryCatch {m : Run α} {h : Exc → Run α} (hm : Serves adapter A m l s Q) :
    Serves adapter A (m.tryCatch h) l s Q := by
  apply (wp_tryCatch _ _).2
  apply wp_mono hm
  intro r l' s' hr
  cases r with
  | ok a => exact hr
  | error e => exact (hr.2 trivial).elim

theorem Serves.finally {Q' : α → Local → Session → Prop} {m : Run α} {n : Run Unit} (hm : Serves adapter A m l s Q)
    (hn : ∀ a l s, Q a l s → Serves adapter A n l s fun _ => Q' a) : Serves adapter A (m.finally_ n) l s Q' := by
  apply (wp_finally _ _).2
  apply wp_mono hm
  intro r l' s' hr
  cases r with
  | error e => exact (hr.2 trivial).elim
  | ok a =>
      apply wp_mono (hn a l' s' hr)
      intro c l'' s'' hc
      cases c with
      | ok u => exact hc
      | error e => exact (hc.2 trivial).elim

theorem Serves.onlyIf {m : Run Unit} {Q : Unit → Local → Session → Prop} (b : Bool) (hm : Serves adapter A m l s Q)
    (h : Q () l s) : Serves adapter A (onlyIf b m) l s Q := by
  cases b with
  | false => exact h
  | true => exact hm

theorem Serves.of_ends {J : Session → Prop} {m : Run α}
    (h : wp (serve adapter) A (fun _ _ => True) m (Ends True J (fun _ _ => False) Q) l s) : Serves adapter A m l s Q :=
  Ends.mono h (fun _ _ _ h => h) (fun _ _ => trivial) fun _ _ h => h

variable (hA : Answers True A)

include hA

section Close

end Close

section Report

omit hA in
def prepared (input : Input) (command : String) (found : MetadataReport) (d : Db) :
    ReadOnly.Report × Option Snapshot :=
  let report := baseReport input command found.state
  match found.state with
  | .damaged => (pendingOnly input
      (refused report "metadata damaged" (String.intercalate "; " found.problems) .metadataDamaged), none)
  | .absent | .incompleteCompatible => (pendingOnly input
      (refused report "not initialized"
        ("the namespace has no completed migration metadata. Read-only commands only; run migrate to " ++
          "initialize. Absence of metadata is not proof that application objects have never been migrated.")
        .notInitialized), none)
  | .complete =>
      match verifyBindings input.config found.metaRow with
      | .error e => (pendingOnly input (refused report "binding mismatch" e.report e.exitCode), none)
      | .ok _ => (report, some (stored d))

theorem wp_inspect {c : Config} (hn : ¬ Uninspected d) (hs : AtRest d s) (hl : Poised l) :
    Serves c.adapter A (inspectMetadata c) l s fun found l' s' => Reports True d found ∧ l' = l ∧ s' = s := by
  apply wp_mono (wp_inspectMetadata hA (fun _ _ _ => trivial) hl.latch hs)
  rintro r l' s' ⟨rfl, h⟩
  cases r with
  | error e => exact absurd (h trivial).1 hn
  | ok found => exact ⟨h.2.2, h.1, rfl⟩

theorem wp_prepare {command : String} (hn : ¬ Uninspected d) (hs : AtRest d s) (hl : Poised l) :
    Serves input.adapter A (prepare input command) l s fun x l' s' =>
      (∃ found, Reports True d found ∧ x = prepared input command found d) ∧ AtRest d s' ∧ Poised l' := by
  apply Serves.bind (wp_inspect hA hn hs hl)
  rintro found l₁ s₁ ⟨hfound, rfl, rfl⟩
  have hprepared {x : ReadOnly.Report × Option Snapshot} (h : prepared input command found d = x) :
      ∃ found, Reports True d found ∧ x = prepared input command found d := ⟨found, hfound, h.symm⟩
  unfold prepared at hprepared
  cases hstate : found.state with
  | absent => exact ⟨hprepared (by rw [hstate]), hs, hl⟩
  | incompleteCompatible => exact ⟨hprepared (by rw [hstate]), hs, hl⟩
  | damaged => exact ⟨hprepared (by rw [hstate]), hs, hl⟩
  | complete =>
      dsimp only
      have hcomplete : Complete d := (complete_of_inspected (by rw [← hfound.state trivial]; exact hstate)).1
      cases hv : verifyBindings input.config found.metaRow with
      | error e => exact ⟨hprepared (by rw [hstate, hv]), hs, hl⟩
      | ok u =>
          apply Serves.bind (Serves.of_ends (wp_readSnapshot (fun _ _ _ _ _ => trivial) hA hs hl hcomplete))
          rintro snapshot l₂ s₂ ⟨rfl, hs₂, hl₂⟩
          exact ⟨hprepared (by rw [hstate, hv]), hs₂, hl₂⟩

end Report

section Command

end Command

end Migr8.Inquiry
