import Migr8.Acceptance
import Migr8.DurableHistory

namespace Migr8.Storage

open Errors Model Latch Driver Database World Adapters Metadata Engine StateValidate Sessions Shape Frames Inspection
open Opening Outcomes Acceptance DurableHistory Lib.Process
open Initialization (Stage Unfinished Blocked Founded InOrder Poised markerRow)
open Lib.Interaction (Exchange trace final play_wp final_wp)

variable {adapter : Adapter} {input : Input} {c : Config} {d d' : Db} {s s' : Session} {p : Prop} {l : Local}

section Sane

def Unshadowed (d : Db) : Prop := ∀ name, d.layout.holder name ≠ .trigger

/-- Not initialized yet, with nothing that speaks against it, or initialized. -/
inductive Sane (d : Db) : Prop
  | unfinished (h : Unfinished d) (hh : Housed d) (ht : Unshadowed d) : Sane d
  | complete (h : Complete d) : Sane d

theorem Sane.verdict (h : Sane d) : (inspected d).state ≠ .damaged := by
  cases h with
  | unfinished h _ _ =>
      rcases h.verdict with hv | hv
      · rw [hv]
        decide
      · rw [hv]
        decide
  | complete h =>
      obtain ⟨m, -, hm⟩ := inspected_of_complete h
      rw [hm]
      exact MetadataState.noConfusion

theorem Sane.marked (h : Sane d) (hm : d.marker ≠ []) : Complete d := by
  cases h with
  | unfinished h _ _ => exact absurd h.marker hm
  | complete h => exact h

theorem Sane.unmarked (h : Sane d) (hm : markerFound d = none) : d.marker = [] := by
  cases h with
  | unfinished h _ _ => exact h.marker
  | complete h =>
      obtain ⟨m, -, hf⟩ := h.markerFound
      rw [hf] at hm
      cases hm

theorem Stage.sane (h : Stage c d d') (hu : Unfinished d) (hh : Housed d) (ht : Unshadowed d) : Sane d' := by
  obtain ⟨hhist, hprog⟩ := hu.empty hh
  have ht' : Unshadowed d' := by
    intro name hn
    rcases h.holder name with he | ⟨-, he⟩
    · exact ht name (he.symm.trans hn)
    · rw [hn] at he
      cases hd : d.layout.holder name <;> rw [hd] at he <;> cases he
  obtain ⟨hh', hp', -⟩ := h.rows
  rcases h.marker with hm | ⟨hc, -⟩
  · have hmark : d'.marker = [] := hm.trans hu.marker
    refine .unfinished ⟨hmark, ?_⟩ ⟨fun _ => hmark, fun _ => hh'.trans hhist, fun _ => hp'.trans hprog⟩ ht'
    rintro (⟨name, found, ha⟩ | ⟨-, hn⟩ | ⟨-, hn⟩)
    · exact ht name (h.altered hu.clean ha).1
    · exact hn (hh'.trans hhist)
    · exact hn (hp'.trans hprog)
  · exact .complete hc

theorem Within.sane (h : Within input d d') (hd : Sane d) : Sane d' := by
  rcases h with rfl | ⟨-, hu, hst⟩
  · exact hd
  · cases hd with
    | unfinished _ hh ht => exact Stage.sane hst hu hh ht
    | complete hc =>
        have hm := hc.marker
        rw [hu.marker] at hm
        cases hm

theorem Within.inOrder (h : Within input d d') (hd : InOrder d) : InOrder d' := by
  rcases h with rfl | ⟨-, -, hst⟩
  · exact hd
  · exact hst.inOrder hd

theorem SameStorage.complete (h : SameStorage d d') (hd : Complete d) : Complete d' := by
  constructor
  · rw [h.1]
    exact hd.layout
  · rw [h.2]
    exact hd.marker

theorem inOrder_of_complete (h : Complete d) : InOrder d := fun _ _ _ _ _ _ _ => h.listed _

structure Kept (d d' : Db) : Prop where
  sane : Sane d'
  order : InOrder d → InOrder d'
  marked : d.marker ≠ [] → SameStorage d d'

theorem Kept.of_within (h : Within input d d') (hd : Sane d) : Kept d d' := by
  refine ⟨Within.sane h hd, Within.inOrder h, fun hm => ?_⟩
  rcases h with rfl | ⟨-, hu, -⟩
  · exact ⟨rfl, rfl⟩
  · exact absurd hu.marker hm

theorem Kept.of_accepts {plan : Plan} {d₁ : Db} (h : Accepts input d d₁ plan) (hs : SameStorage d₁ d') (hd : Sane d) :
    Kept d d' := by
  have hc := SameStorage.complete hs h.opened.complete
  refine ⟨.complete hc, fun _ => inOrder_of_complete hc, fun hm => ?_⟩
  obtain ⟨hl, hk⟩ := (Kept.of_within h.opened.within hd).marked hm
  exact ⟨hs.1.trans hl, hs.2.trans hk⟩

theorem Careful.kept {q : Request} (h : Careful input d q s) (hd : Sane d) : Kept d s.db := by
  cases h with
  | before h _ _ => exact .of_within h hd
  | after h hs _ => exact .of_accepts h hs hd

theorem Careful.creates {q : Request} (h : Careful input d q s) {name : ObjectName} (hq : q.op = .createObject name) :
    s.db.marker = [] := by
  cases h with
  | before _ _ hc => exact hc name hq
  | after _ _ hc => exact absurd hq (hc name)

theorem Reached.kept {r : Except Exc Unit} (h : Reached input d p r l s) (hd : Sane d) : Kept d s.db := by
  cases h with
  | stopped _ h _ => exact .of_within h hd
  | unplanned _ _ h _ => exact .of_within h.within hd
  | accepted h hs => exact .of_accepts h hs hd

theorem Ran.kept {r : Except Exc Report} (h : Ran input d p r l s) (hd : Sane d) : Kept d s.db := by
  rcases h with ⟨r', l', s', hr, hdb, -⟩ | ⟨-, hdb, -⟩
  · rw [hdb]
    exact Reached.kept hr hd
  · have hwithin : Within input d d := .inl rfl
    rw [hdb]
    exact .of_within hwithin hd

end Sane

section Runs

variable {os : List Outcome} {x : Exchange Request Outcome Session}

theorem atRest_afresh (s : Session) : AtRest s.db s.afresh := ⟨rfl, rfl⟩

/-- Every request of a run is careful, and wherever it is cut the storage is kept. -/
theorem run_careful (input : Input) (os : List Outcome) (hs : Sane s.db) :
    (∀ x ∈ trace (serve input.adapter) os (Engine.run input {}) s.afresh, Careful input s.db x.request x.before) ∧
      Kept s.db (final (serve input.adapter) os (Engine.run input {}) s.afresh).db := by
  have hanswers : Answers False fun (_ : Request) (_ : Session) (_ : Outcome) => True := fun h => h.elim
  have hwp : wp (serve input.adapter) (fun _ _ _ => True) (Careful input s.db) (Engine.run input)
      (Ran input s.db False) {} s.afresh := Acceptance.wp_run hanswers (atRest_afresh s) fun _ => hs.unmarked
  refine ⟨(play_wp hwp os fun _ _ => trivial).1, ?_⟩
  exact final_wp hwp os (fun _ _ => trivial) (fun q s' hq => Careful.kept hq hs) fun x s' hx => Ran.kept hx hs

theorem Sequence.sane (h : Sequence adapter s s') (hs : Sane s.db) : Sane s'.db ∧ (InOrder s.db → InOrder s'.db) := by
  induction h with
  | refl => exact ⟨hs, id⟩
  | run input ha os h ih =>
      subst ha
      have hkept := (run_careful input os ih.1).2
      exact ⟨hkept.sane, fun ho => hkept.order (ih.2 ho)⟩

theorem SameStorage.markerFound (h : SameStorage d d') : markerFound d' = markerFound d := by
  unfold Inspection.markerFound listed
  rw [h.1, h.2]

def Bound (input : Input) (d : Db) : Prop := Complete d ∧ verifyBindings input.config (markerFound d) = .ok ()

theorem Opened.bound (h : Opened input d d') : Bound input d' := ⟨h.complete, Opening.Opened.bound h⟩

theorem SameStorage.bound (h : SameStorage d d') (hb : Bound input d) : Bound input d' := by
  refine ⟨SameStorage.complete h hb.1, ?_⟩
  rw [SameStorage.markerFound h]
  exact hb.2

section Example

end Example

end Runs

end Migr8.Storage
