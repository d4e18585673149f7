import Migr8.Execution

namespace Migr8.Runs

open Errors Model Latch Driver Database World Adapters Context Engine StateValidate Rules Discipline Obedience
open EngineObedience Teardown RunObedience Sessions Shape Forward Frames Transactions Transitions Plans Planning
open Execution Lib.Process

variable {A : Request → Session → Outcome → Prop} {input : Input} {p : Prop} {rows : List HistoryRow} {α : Type}
  {s s' : Session} {l : Local}

def SameMarks (s s' : Session) : Prop := started s' = started s ∧ ∀ id, admitted s' id ↔ admitted s id

theorem SameMarks.of_journal (h : s'.journal = s.journal) : SameMarks s s' := by
  unfold SameMarks started admitted
  rw [h]
  exact ⟨rfl, fun _ => Iff.rfl⟩

theorem SameMarks.trans {s'' : Session} (h : SameMarks s s') (h' : SameMarks s' s'') : SameMarks s s'' :=
  ⟨h'.1.trans h.1, fun id => (h'.2 id).trans (h.2 id)⟩

def Unmarked (s : Session) : Prop := started s = [] ∧ ∀ id, ¬ admitted s id

theorem Unmarked.same (h : Unmarked s) (hm : SameMarks s s') : Unmarked s' :=
  ⟨hm.1.trans h.1, fun id ha => h.2 id ((hm.2 id).1 ha)⟩

def Plain (op : Op) : Prop :=
  (∀ event id, op = .log event id → id = none ∨ event = "run_end") ∧ ∀ id attempt, op ≠ .invoke id attempt

theorem SameMarks.serve {q : Request} {o : Outcome} (h : Plain q.op) :
    SameMarks s (serve input.adapter q o s).2 := by
  by_cases hl : ∃ event id, q.op = .log event id
  · obtain ⟨op, l⟩ := q
    obtain ⟨event, id, rfl⟩ := hl
    change SameMarks s (serveLog event id o s).2
    unfold serveLog
    split
    · exact SameMarks.of_journal rfl
    · refine ⟨?_, fun unit => ?_⟩
      · rw [started_note]
        obtain rfl | rfl := h.1 event id rfl
        · split <;> simp
        · simp
      · rw [admitted_note]
        obtain rfl | rfl := h.1 event id rfl <;> simp
  · refine SameMarks.of_journal (congrArg Prod.fst (ledger_serve ?_ h.2))
    exact fun event id he => hl ⟨event, id, he⟩

theorem plain_of_serviceOp {op : Op} (h : serviceOp op = true) : Plain op := by
  constructor
  · rintro event id rfl
    cases id
    · exact .inl rfl
    · cases h
  · rintro id attempt rfl
    cases h

theorem plain_of_closingOp {op : Op} (h : closingOp op = true) : Plain op := by
  constructor
  · rintro event id rfl
    simp only [closingOp, Bool.or_eq_true, Bool.and_eq_true, Option.isNone_iff_eq_none, beq_iff_eq] at h
    exact h.symm.imp_left (·.1)
  · rintro id attempt rfl
    cases h

theorem plain_of_snapshotOp {op : Op} (h : snapshotOp op = true) : Plain op := by
  constructor
  · rintro event id rfl
    cases h
  · rintro id attempt rfl
    cases h

def AllDone (capture : Capture) (s : Session) : Prop :=
  ∀ unit ∈ capture.units, ∃ r ∈ s.db.history, r.migrationId = unit.id ∧ r.isSuccess = true

structure Left (input : Input) (A : Request → Session → Outcome → Prop) (p : Prop) (r : Except Exc Unit) (l : Local)
    (s : Session) : Prop where
  sound : ∃ rows, (p → WellFormed rows) ∧ Sound p rows s.db
  done : r = .ok () → AllDone input.capture s
  stopped : Calm A → l.latch.state ≠ .unknownOutcome → (∃ e, r = .error e) → started s = [] ∨
    ∃ unit ∈ input.capture.units, (started s).getLast? = some unit.id ∧ Standing input.capture unit s

theorem Left.early {e : Exc} (hs : Sound p rows s.db) (hw : p → WellFormed rows) (hn : started s = []) :
    Left input A p (.error e) l s := by
  refine ⟨⟨rows, hw, hs⟩, ?_, fun _ _ _ => .inl hn⟩
  rintro ⟨⟩

variable (hs : Frame p rows s) (hw : p → WellFormed rows) (hl : l.latch.state = .open) (hn : Unmarked s)

include hs hw hl hn

theorem wp_migrate : wp (serve input.adapter) A (Label input p) (migrate input) (Left input A p) l s := by
  have hopen : Safe input.adapter (fun op => serviceOp op = true) (openNamespace input) _ l l.latch :=
    Safe.openNamespace (fun _ h => h) l l.latch (Later.refl _) hl
  have hframe := wp_frame (A := A) hopen (fun _ h => frameOp_of_serviceOp h) hs hw
  have hmarks := wp_lift (A := A) (J := SameMarks s) hopen (SameMarks.of_journal rfl)
    fun q o s' hq _ hs' => hs'.trans (SameMarks.serve (plain_of_serviceOp hq))
  have hnone {s' : Session} (h : SameMarks s s') : started s' = [] := h.1.trans hn.1
  refine (wp_bind _ _).2 (wp_mono (wp_weaken (wp_and hframe hmarks) (fun _ _ _ h => h) fun _ _ h => h.1) ?_)
  rintro (e | u) l₁ s₁ ⟨⟨-, hs₁⟩, -, hm₁⟩
  · exact Left.early hs₁.db hw (hnone hm₁)
  have hplan : Obeys input.adapter (fun op => snapshotOp op = true) any (buildPlan input) :=
    Obeys.buildPlan fun _ h => h
  have hmarks₂ := wp_lift (A := A) (J := SameMarks s) (hplan l₁ l₁.latch (Later.refl _) trivial) hm₁
    fun q o s' hq _ hs' => hs'.trans (SameMarks.serve (plain_of_snapshotOp hq))
  refine (wp_bind _ _).2 (wp_mono (wp_weaken (wp_and (wp_buildPlan hs₁ hw) hmarks₂) (fun _ _ _ h => h)
    fun _ _ h => h.1) ?_)
  rintro (e | plan) l₂ s₂ ⟨⟨hs₂, ht, hplan⟩, -, hm₂⟩
  · exact Left.early hs₂.db hw (hnone hm₂)
  obtain ⟨done, hready⟩ := hplan plan rfl
  have hserve (o : Outcome) : Frame p rows (serve input.adapter ⟨.log "plan", l₂⟩ o s₂).2 ∧
      SameMarks s (serve input.adapter ⟨.log "plan", l₂⟩ o s₂).2 := by
    refine ⟨hs₂.serve trivial, hm₂.trans (SameMarks.serve ⟨?_, nofun⟩)⟩
    rintro event id ⟨⟩
    exact .inl rfl
  refine wp_perform_bind (hs₂.label hw trivial) (fun o u _ hr => ?_) fun o e _ hr => ?_
  · obtain ⟨hs₃, hm₃⟩ := hserve o
    have hno : ∀ id, ¬ admitted (serve input.adapter ⟨.log "plan", l₂⟩ o s₂).2 id := by
      exact fun id ha => hn.2 id ((hm₃.2 id).1 ha)
    refine wp_mono (wp_execute plan.pending done rows l₂ _ hs₃ hready fun unit _ => hno unit.id) ?_
    rintro (e | u) l₄ s₄ h
    · obtain ⟨⟨rows', hw', hd'⟩, hstop⟩ := h
      refine ⟨⟨rows', fun _ => hw', hd'⟩, ?_, fun hc hl _ => .inr (hstop hc hl)⟩
      rintro ⟨⟩
    · obtain ⟨rows', hready', hs'⟩ := h
      refine ⟨⟨rows', fun _ => hready'.wellFormed, hs'.db⟩, fun _ unit hu => ?_, ?_⟩
      · rw [hs'.db.history]
        exact hready'.succeeded unit hu
      · rintro - - ⟨e, ⟨⟩⟩
  · obtain ⟨hs₃, hm₃⟩ := hserve o
    exact Left.early hs₃.db hw (hnone hm₃)

omit hs hw hl hn in
theorem Standing.same {capture : Capture} {unit : CapturedUnit} (h : Standing capture unit s) (hdb : s'.db = s.db)
    (hm : SameMarks s s') : Standing capture unit s' := by
  refine ⟨fun u hu hlt => ?_, fun ha r hr => ?_, fun hr ha => ?_⟩
  · rw [hdb]
    exact h.before u hu hlt
  · rw [hdb] at hr
    exact h.atomic ha r hr
  · rw [hdb]
    exact h.restartable hr ((hm.2 _).1 ha)

structure RunEnd (input : Input) (A : Request → Session → Outcome → Prop) (p : Prop) (x : Except Exc Report × Local)
    (s : Session) : Prop where
  sound : ∃ rows, (p → WellFormed rows) ∧ Sound p rows s.db
  done : exitOf x = .ok → AllDone input.capture s
  stopped : Calm A → exitOf x = .migrationFailed ∨ exitOf x = .contractViolation → started s = [] ∨
    ∃ unit ∈ input.capture.units, (started s).getLast? = some unit.id ∧ Standing input.capture unit s

omit hs hw hl hn in
theorem terminalExit_ne_ok (e : Exc) (l : Local) : terminalExit e l ≠ .ok := by
  unfold terminalExit
  split
  · next error _ => cases h : error.kind <;> simp [Migr8Error.exitCode, h, ErrorKind.exitCode]
  · decide

omit hs hw hl hn in
/-- The end of the run changes nothing that is durable and reports what `migrate`
has come to. -/
theorem wp_ending {r : Except Exc Unit} (hleft : Left input A p r l s) (ht : Told r l.latch)
    (ho : outcome l = (false, .ok)) :
    wp (serve input.adapter) A (Label input p) (settling input (conclude input r)) (fun r' l' s' =>
      RunEnd input A p (r', l') s') l s := by
  obtain ⟨rows, hw, hd⟩ := hleft.sound
  have hend : Safe input.adapter (fun op => closingOp op = true) (settling input (conclude input r)) _ l l.latch :=
    Safe.settling_conclude (fun _ h => h) (Later.refl l.latch) ht
  have hclose := wp_closing (A := A) hend (fun _ h => h) hd hw
  have hmarks := wp_lift (A := A) (J := SameMarks s) hend (SameMarks.of_journal rfl)
    fun q o s' hq _ hs' => hs'.trans (SameMarks.serve (plain_of_closingOp hq))
  refine wp_mono (wp_weaken (wp_and hclose hmarks) (fun _ _ _ h => h) fun _ _ h => h.1) ?_
  rintro r' l' s' ⟨⟨⟨c, -, hlatch, hrec⟩, hdb⟩, -, hm⟩
  refine ⟨⟨rows, hw, hdb ▸ hd⟩, fun hx => ?_, fun hc hx => ?_⟩
  · rw [hrec.exitOf] at hx
    cases r with
    | error e => exact absurd hx (terminalExit_ne_ok e l)
    | ok u =>
        intro unit hu
        rw [hdb]
        exact hleft.done rfl unit hu
  · rw [hrec.exitOf] at hx
    have hknown : l.latch.state ≠ .unknownOutcome := by
      intro hu
      cases he : l.latch.error with
      | none => exact absurd ((RunLatch.error_eq_none_iff _).1 he) (by rw [hu]; decide)
      | some e =>
          rw [exitAfter_of_latched ht he, Migr8Error.exitCode, kind_of_unknown he hu] at hx
          exact absurd hx (by decide)
    have hfailed : ∃ e, r = .error e := by
      cases r with
      | error e => exact ⟨e, rfl⟩
      | ok u =>
          have hok : l.report.exitCode = .ok := congrArg Prod.snd ho
          rw [exitAfter, hok] at hx
          exact absurd hx (by decide)
    refine (hleft.stopped hc hknown hfailed).imp (fun h => hm.1.trans h) ?_
    rintro ⟨unit, hu, hlast, hst⟩
    exact ⟨unit, hu, by rw [hm.1, hlast], Standing.same hst hdb hm⟩

omit hl in
theorem wp_run : wp (serve input.adapter) A (Label input p) (Engine.run input) (fun r l' s' =>
    RunEnd input A p (r, l') s') {} s := by
  have hstart (o : Outcome) : Frame p rows (serve input.adapter ⟨.log "run_start", {}⟩ o s).2 ∧
      SameMarks s (serve input.adapter ⟨.log "run_start", {}⟩ o s).2 := by
    refine ⟨hs.serve trivial, SameMarks.serve ⟨?_, nofun⟩⟩
    rintro event id ⟨⟩
    exact .inl rfl
  refine RunObedience.wp_run.2 (wp_perform.2 ⟨hs.label hw trivial, fun o _ => ?_⟩)
  obtain ⟨hs₁, hm₁⟩ := hstart o
  have hn₁ := hn.same hm₁
  cases hr : (serve input.adapter ⟨.log "run_start", {}⟩ o s).1 with
  | error e =>
      have hend : Safe input.adapter (fun op => closingOp op = true) (settling input (Proc.throw e)) _
          {} RunLatch.fresh :=
        Safe.settling_throw (fun _ h => h) (Later.refl _) rfl rfl
      have hdb := wp_closing (A := A) hend (fun _ h => h) hs₁.db hw
      have hmarks := wp_lift (A := A) (J := SameMarks s) hend hm₁
        fun q o s' hq _ hs' => hs'.trans (SameMarks.serve (plain_of_closingOp hq))
      refine wp_mono (wp_weaken (wp_and hdb hmarks) (fun _ _ _ h => h) fun _ _ h => h.1) ?_
      rintro r l' s' ⟨⟨⟨c, -, -, hx⟩, hdb⟩, -, hm⟩
      refine ⟨⟨rows, hw, hdb ▸ hs₁.db⟩, fun h => ?_, fun _ _ => .inl (hn.same hm).1⟩
      rw [hx] at h
      cases h
  | ok u =>
      have hsafe : Safe input.adapter (fun _ => True) (migrate input) _ {} RunLatch.fresh :=
        Safe.migrate (fun _ => trivial) {} RunLatch.fresh (Later.refl _) rfl
      have hmig := wp_lift (A := A) (J := fun _ => True) (s := (serve input.adapter ⟨.log "run_start", {}⟩ o s).2)
        hsafe trivial fun _ _ _ _ _ _ => trivial
      refine wp_mono (wp_weaken (wp_and (wp_migrate hs₁ hw rfl hn₁) hmig) (fun _ _ _ h => h) fun _ _ h => h.1) ?_
      rintro r l₂ s₂ ⟨hleft, ⟨c, -, ht, ho⟩, -⟩
      exact wp_ending hleft ht ho.unrecorded

end Migr8.Runs
