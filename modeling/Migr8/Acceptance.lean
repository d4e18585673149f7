import Migr8.Outcomes

namespace Migr8.Acceptance

open Errors Model Latch Driver Database World Adapters Metadata Engine StateValidate Rules Discipline Obedience
open EngineObedience Teardown RunObedience Sessions Frames Inspection Initialization Opening Snapshots Outcomes
open Lib.Process

variable {A : Request → Session → Outcome → Prop} {input : Input} {d d' : Db} {p : Prop} {s : Session} {l : Local}
  {plan : Plan}

/-- This run opens `d` as `d'` and accepts the plan for what is stored there. -/
structure Accepts (input : Input) (d d' : Db) (plan : Plan) : Prop where
  checked : Settles (preflight input input.capture.units) (.ok ())
  opened : Opened input d d'
  planned : planFor input d' = .ok plan

def SameStorage (d d' : Db) : Prop := d'.layout = d.layout ∧ d'.marker = d.marker

/-- A request as this run may make it in a namespace found as `d`. Until the plan
is accepted nothing but the initialization writes; after that, nothing touches the
objects and the marker. -/
inductive Careful (input : Input) (d : Db) (q : Request) (s : Session) : Prop
  | before (h : Within input d s.db) (hp : ∀ id, q.op ≠ .log "plan" id)
      (hc : ∀ name, q.op = .createObject name → s.db.marker = []) : Careful input d q s
  | after {d' : Db} {plan : Plan} (h : Accepts input d d' plan) (hs : SameStorage d' s.db)
      (hc : ∀ name, q.op ≠ .createObject name) : Careful input d q s

/-- How far `migrate` gets in a namespace found as `d`. Under `p` every call is
answered. -/
inductive Reached (input : Input) (d : Db) (p : Prop) (r : Except Exc Unit) (l : Local) (s : Session) : Prop
  | stopped {e : Exc} (hr : r = .error e) (h : Within input d s.db) (hp : p → Stopped input d e l) :
      Reached input d p r l s
  | unplanned {e : Exc} (hr : r = .error e) (hc : Settles (preflight input input.capture.units) (.ok ()))
      (h : Opened input d s.db) (hp : p → l.latch.state = .open ∧ ∃ m, e = .migr8 m ∧ planFor input s.db = .error m) :
      Reached input d p r l s
  | accepted {d' : Db} {plan : Plan} (h : Accepts input d d' plan) (hs : SameStorage d' s.db) : Reached input d p r l s

theorem careful_of_within (h : Within input d s.db) : Asks (Careful input d) s := by
  intro op l hop
  refine .before h ?_ ?_
  · rintro id rfl
    cases hop
  · rintro name rfl
    cases hop

theorem careful_permits : Permits (Careful input d) input d := by
  refine ⟨fun s h => careful_of_within h, fun name l s h hm => .before h ?_ fun _ _ => hm⟩
  rintro id ⟨⟩

theorem careful_closes (h : Within input d d') : Closes (Careful input d) d' := by
  rintro q s rfl hq
  refine .before h ?_ ?_
  · intro id he
    rw [he] at hq
    cases id with
    | none => exact absurd hq (by decide)
    | some id => cases hq
  · intro name he
    rw [he] at hq
    cases hq

/-- Everything but the initialization leaves the objects and the marker alone. -/
def leavesStorage : Op → Bool
  | .createObject _ | .insertMarker _ => false
  | _ => true

theorem keeps_storage {op : Op} (h : leavesStorage op = true) : Keeps (SameStorage d) op := by
  cases op <;> try trivial
  case insertHistory i => exact fun _ _ h _ => h
  case updateAttempt => exact fun _ _ h => h
  case completeActive => exact fun _ _ h => h
  case deleteProgress => exact fun _ h => h
  case progressSet => exact fun _ _ _ h _ => h
  case statement => exact fun _ _ h => h

theorem leavesStorage_of_unitOp {unit : CapturedUnit} {op : Op} (h : UnitOp unit op) : leavesStorage op = true := by
  cases op <;> try rfl
  case createObject name => rcases h with h | h | h <;> cases h
  case insertMarker row => rcases h with h | h | h <;> cases h

theorem leavesStorage_create {op : Op} (h : leavesStorage op = true) (name : ObjectName) : op ≠ .createObject name := by
  rintro rfl
  cases h

theorem wp_execute_kept (active : Option HistoryRow) (units : List CapturedUnit) (h : Accepts input d d' plan)
    (hs : Holds (SameStorage d') s) (hl : l.latch.state = .open) :
    wp (serve input.adapter) A (Careful input d) (execute input active units) (Reached input d p) l s := by
  have hexec : Obeys input.adapter (fun op => leavesStorage op = true) isOpen (execute input active units) :=
    Obeys.execute active units (fun unit _ op ho => leavesStorage_of_unitOp ho) fun _ _ => rfl
  have hlift := wp_lift (A := A) (J := Holds (SameStorage d')) (hexec l l.latch (Later.refl _) hl) hs
    fun q o s' hq _ hs' => hs'.serve (keeps_storage hq)
  apply wp_mono (wp_weaken hlift (fun _ _ _ h => h) ?_)
  · exact fun r l' s' h' => .accepted h h'.2.db
  · rintro q s' ⟨⟨c, hq⟩, hs'⟩
    exact .after h hs'.db (leavesStorage_create hq.kind)

/-- Every run is careful, and what it reaches depends on the checks it makes. -/
theorem wp_migrate (hA : Answers p A) (hs : AtRest d s) (hl : Poised l)
    (hm : input.recoverId = none → markerFound d = none → d.marker = []) :
    wp (serve input.adapter) A (Careful input d) (migrate input) (Reached input d p) l s := by
  apply (wp_bind _ _).2
  apply wp_mono (wp_openNamespace hA careful_permits hs hl hm)
  intro r l₁ s₁ h
  cases r with
  | error e => exact .stopped rfl h.1 h.2
  | ok u =>
      obtain ⟨hc, d₁, ho, hs₁, hl₁⟩ := h
      have hwithin {s : Session} (h : s.db = d₁) : Within input d s.db := by rw [h]; exact ho.within
      apply (wp_bind _ _).2
      apply wp_mono (Snapshots.wp_buildPlan (fun s h => careful_of_within (hwithin h)) hA hs₁ hl₁ ho.complete)
      intro r l₂ s₂ h
      cases r with
      | error e =>
          obtain ⟨rfl, hp⟩ := h
          exact .unplanned rfl hc ho hp
      | ok plan =>
          obtain ⟨hplan, hs₂, hl₂⟩ := h
          have haccepts : Accepts input d d₁ plan := ⟨hc, ho, hplan⟩
          have hkept {s : Session} (h : AtRest d₁ s) : Holds (SameStorage d₁) s :=
            Holds.of_none (by rw [h.db]; exact ⟨rfl, rfl⟩) h.idle
          have hlog : wp (serve input.adapter) A (Careful input d) (World.perform (.log "plan"))
              (fun _ l' s' => l' = l₂ ∧ Holds (SameStorage d₁) s') l₂ s₂ := by
            apply wp_perform.2
            refine ⟨.after haccepts (hkept hs₂).db (by rintro name ⟨⟩), fun o _ => ⟨rfl, (hkept hs₂).serve trivial⟩⟩
          apply (wp_bind _ _).2
          apply wp_mono hlog
          rintro r l₃ s₃ ⟨rfl, hs₃⟩
          cases r with
          | error e => exact .accepted haccepts hs₃.db
          | ok u => exact wp_execute_kept plan.active plan.pending haccepts hs₃ hl₂.latch

theorem reached_closes {r : Except Exc Unit} (h : Reached input d p r l s) : Closes (Careful input d) s.db := by
  cases h with
  | stopped _ h _ => exact careful_closes h
  | unplanned _ _ h _ => exact careful_closes h.within
  | accepted h hs =>
      intro q s' he hq
      rw [← he] at hs
      refine .after h hs ?_
      intro name hname
      rw [hname] at hq
      cases hq

/-- What a whole run comes to: it reports how far `migrate` got, or it was
interrupted before it began. -/
def Ran (input : Input) (d : Db) (p : Prop) (r : Except Exc Report) (l : Local) (s : Session) : Prop :=
  Ended (Reached input d p) (r, l) s ∨ ¬ p ∧ s.db = d ∧ exitOf (r, l) = .migrationFailed

theorem wp_run (hA : Answers p A) (hs : AtRest d s)
    (hm : input.recoverId = none → markerFound d = none → d.marker = []) :
    wp (serve input.adapter) A (Careful input d) (Engine.run input) (Ran input d p) {} s :=
  wp_run_of_migrate hs hA (careful_closes (.inl rfl)) (fun _ hs' => wp_migrate hA hs' ⟨rfl, rfl⟩ hm)
    fun _ _ _ h => reached_closes h

end Migr8.Acceptance
