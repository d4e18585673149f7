import Migr8.EngineObedience

namespace Migr8.Teardown

open Errors Model Latch Driver Database World Adapters Metadata Context Engine Rules Discipline Obedience
open EngineObedience Lib.Process

variable {adapter : Adapter} {K : Op → Prop} {α : Type}

/-- What ends a run: nothing of it can commit. -/
def closingOp : Op → Bool
  | .log event id => event == "run_end" || (id.isNone && event != "plan")
  | .status | .readIdentity | .rollback | .closeRollback | .releaseLock | .closeConnection | .discardConnection => true
  | _ => false

def closeOp : Op → Bool
  | .status | .readIdentity | .closeRollback | .releaseLock | .closeConnection => true
  | _ => false

def discardOp : Op → Bool
  | .releaseLock | .discardConnection => true
  | _ => false

theorem closingOp_of_closeOp {op : Op} (h : closeOp op = true) : closingOp op = true := by
  cases op <;> trivial

theorem closingOp_of_discardOp {op : Op} (h : discardOp op = true) : closingOp op = true := by
  cases op <;> trivial

/-- The outcome is recorded, and it is what the run returns. -/
structure Recorded (code : Exit) (r : Except Exc Report) (l : Local) : Prop where
  outcome : outcome l = (true, code)
  returned : ∀ report, r = .ok report → report.exitCode = code

theorem Recorded.exitOf {code : Exit} {r : Except Exc Report} {l : Local} (h : Recorded code r l) :
    exitOf (r, l) = code := by
  have ho : l.reported = true ∧ l.report.exitCode = code := Prod.mk.injEq .. ▸ h.outcome
  cases r with
  | ok report => exact h.returned report rfl
  | error e => simp only [Engine.exitOf, ho.1, ho.2, if_true]

section Closing

theorem Steady.suppressDriverError {pre : LatchState → Prop} {m : Run Unit} (hm : Steady adapter K outcome pre m) :
    Steady adapter K outcome pre (suppressDriverError adapter m) :=
  hm.tryCatch fun _ => Steady.ite (Steady.pure _) (Steady.throw _)

theorem Steady.dropLock {pre : LatchState → Prop} : Steady adapter K outcome pre dropLock :=
  Steady.modify fun _ => ⟨rfl, rfl⟩

theorem Steady.dropConnection {pre : LatchState → Prop} : Steady adapter K outcome pre dropConnection :=
  Steady.modify fun _ => ⟨rfl, rfl⟩

theorem Steady.releaseLock (hr : K .releaseLock) : Steady adapter K outcome known (releaseLock adapter) := by
  have hp : Steady adapter K outcome known (World.perform .releaseLock) := Steady.perform_known hr rfl
  refine (Steady.get _).bind fun held => Steady.onlyIf held ?_
  cases adapter
  case sqlite => exact hp.finally Steady.dropLock
  all_goals exact (Steady.suppressDriverError hp).finally Steady.dropLock

/-- SQLite's namespace lock is a file lock, so even a discarded run lets it go. -/
theorem Steady.releaseFileLock (hr : K .releaseLock) : Steady .sqlite K outcome any (Adapters.releaseLock .sqlite) := by
  refine (Steady.get _).bind fun held => Steady.onlyIf held (Steady.finally ?_ Steady.dropLock)
  exact Steady.perform_any hr rfl rfl nofun

theorem Steady.close (hK : ∀ op, closeOp op = true → K op) : Steady adapter K outcome known (close adapter) := by
  have hp {op : Op} (h : closeOp op = true) (hc : cleanup op = true) :
      Steady adapter K outcome known (World.perform op) := Steady.perform_known (hK _ h) hc
  have hclose : Steady adapter K outcome known ((World.perform .closeConnection).finally_ Adapters.dropConnection) :=
    (hp rfl rfl).finally Steady.dropConnection
  cases adapter
  case sqlite =>
    refine (Steady.get _).bind fun held => (Steady.onlyIf held ?_).bind fun _ => Steady.releaseLock (hK _ rfl)
    refine (hp rfl rfl).bind fun _ => (Steady.onlyIf _ (hp rfl rfl)).bind fun _ => ?_
    exact (hp rfl rfl).bind fun _ => Steady.dropConnection
  case postgres =>
    refine (Steady.get _).bind fun held => Steady.onlyIf held (Steady.finally ?_ hclose)
    refine Steady.bind ((hp rfl rfl).bind fun _ => Steady.pure _) fun opened => ?_
    exact (Steady.onlyIf _ (hp rfl rfl)).bind fun _ => Steady.releaseLock (hK _ rfl)
  case oracle =>
    refine (Steady.get _).bind fun held => Steady.onlyIf held (Steady.finally ?_ hclose)
    refine Steady.bind ((hp rfl rfl).bind fun _ => Steady.pure _) fun opened => ?_
    exact (Steady.onlyIf _ (hp rfl rfl)).bind fun _ => Steady.releaseLock (hK _ rfl)

section Discarding

variable (hK : ∀ op, discardOp op = true → K op)

include hK

theorem Steady.discard : Steady adapter K outcome any (discard adapter) := by
  have hd : Steady adapter K outcome any (World.perform .discardConnection) :=
    Steady.perform_any (hK _ rfl) rfl rfl nofun
  have hs := Steady.suppressDriverError hd
  cases adapter
  case sqlite =>
    refine (Steady.get _).bind fun held => (Steady.onlyIf held ?_).bind fun _ => Steady.releaseFileLock (hK _ rfl)
    exact hs.bind fun _ => Steady.dropConnection
  all_goals
    exact (Steady.get _).bind fun held => Steady.onlyIf held
      (Steady.dropLock.bind fun _ => hs.finally Steady.dropConnection)

theorem Steady.tryDiscard (n : Nat) : Steady adapter K outcome any (tryDiscard adapter n) := by
  induction n with
  | zero => exact Steady.pure ()
  | succ n ih =>
      refine (Steady.discard hK).attempt.bind fun r => ?_
      split
      · exact Steady.pure ()
      · exact ih
      · exact Steady.ite (Steady.pure _) (Steady.throw _)

theorem Steady.discardQuietly : Steady adapter K outcome any (discardQuietly adapter) :=
  (Steady.get _).bind fun _ => (Steady.tryDiscard hK 2).bind fun _ => Steady.pure _

end Discarding

variable (hK : ∀ op, closingOp op = true → K op)

include hK

omit hK in
theorem Steady.noteDiscarded {pre : LatchState → Prop} (reason : String) :
    Steady adapter K outcome pre (noteDiscarded reason) :=
  Steady.modify fun _ => ⟨rfl, rfl⟩

theorem Steady.closeQuietly : Steady adapter K outcome known (closeQuietly adapter) := by
  refine (Steady.close fun _ h => hK _ (closingOp_of_closeOp h)).tryCatch fun e => ?_
  split
  · refine ((Steady.discardQuietly fun _ h => hK _ (closingOp_of_discardOp h)).weaken fun _ _ => trivial).bind
      fun dropped => ?_
    exact Steady.onlyIf dropped (Steady.noteDiscarded _)
  · exact Steady.ite (Steady.pure _) (Steady.throw _)

theorem Steady.log {pre : LatchState → Prop} (id : Option String) :
    Steady adapter K outcome pre (World.perform (.log "run_end" id)) := by
  have hl : Steady adapter K outcome any (World.perform (.log "run_end" id)) :=
    Steady.perform_any (hK _ rfl) rfl rfl nofun
  exact hl.weaken fun _ _ => trivial

end Closing

section Records

variable (adapter K)

def Records (code : Exit) (pre : LatchState → Prop) (m : Run Report) : Prop :=
  ∀ l c, Later c l.latch → pre l.latch.state → outcome l = (true, code) →
    Safe adapter K m (fun r l' c' => Later c' l'.latch ∧ l'.latch = l.latch ∧ Recorded code r l') l c

end Records

variable {code : Exit} {pre : LatchState → Prop}

theorem Records.finish : Records adapter K code pre finish := by
  intro l c hc _ ho
  refine ⟨hc, rfl, ho, ?_⟩
  rintro report ⟨⟩
  exact congrArg Prod.snd ho

theorem Records.bind {m : Run α} {f : α → Run Report} (hm : Steady adapter K outcome pre m)
    (hf : ∀ a, Records adapter K code pre (f a)) : Records adapter K code pre (m >>= f) := by
  intro l c hc hp ho
  refine (wp_bind m f).2 (wp_mono (hm l c hc hp) ?_)
  rintro (e | a) l' c' ⟨hc', hl⟩
  · exact ⟨hc', hl.latch, hl.view.trans ho, nofun⟩
  · refine wp_mono (hf a l' c' hc' (hl.pre hp) (hl.view.trans ho)) ?_
    rintro r l'' c'' ⟨hc'', hl', hr⟩
    exact ⟨hc'', hl'.trans hl.latch, hr⟩

section Outcome

variable (hK : ∀ op, closingOp op = true → K op)

include hK

theorem Records.after_fail {f : Unit → Run Report} (e : Migr8Error) (discarded : Bool)
    (hf : ∀ u, Records adapter K code pre (f u)) (l : Local) (c : RunLatch) (hc : Later c l.latch)
    (hp : pre l.latch.state) :
    Safe adapter K (fail e code discarded >>= f) (fun r l' c' =>
      Later c' l'.latch ∧ l'.latch = l.latch ∧ Recorded code r l') l c := by
  refine (wp_bind _ _).2 ((wp_bind _ _).2 ((wp_modify _).2 ?_))
  have hlog : Steady adapter K outcome pre (World.perform (.log "run_end" e.migrationId)) := Steady.log hK _
  refine wp_mono (hlog _ c hc hp) ?_
  rintro (e | a) l' c' ⟨hc', hl⟩
  · exact ⟨hc', hl.latch, hl.view, nofun⟩
  · refine wp_mono (hf a l' c' hc' (hl.pre hp) hl.view) ?_
    rintro r l'' c'' ⟨hc'', hl', hr⟩
    exact ⟨hc'', hl'.trans hl.latch, hr⟩

def terminalExit (e : Exc) (l : Local) : Exit :=
  match terminalError e l with
  | some error => error.exitCode
  | none => .migrationFailed

omit hK in
theorem known_of_terminalError {e : Exc} {l : Local} {error : Migr8Error} (h : terminalError e l = some error)
    (he : error.exitCode ≠ .unknownOutcome) : known l.latch.state := by
  intro hu
  cases hl : l.latch.error with
  | none => exact absurd ((RunLatch.error_eq_none_iff _).1 hl) (by rw [hu]; decide)
  | some x =>
      simp only [terminalError, hl, Option.some.injEq] at h
      subst h
      exact he (by rw [Migr8Error.exitCode, kind_of_unknown hl hu]; rfl)

omit hK in
theorem known_of_terminalError_none {e : Exc} {l : Local} (h : terminalError e l = none) :
    known l.latch.state := by
  cases hl : l.latch.error with
  | none => rw [known, (RunLatch.error_eq_none_iff _).1 hl]; decide
  | some x => simp [terminalError, hl] at h

theorem Safe.terminate (e : Exc) (l : Local) (c : RunLatch) (hc : Later c l.latch) :
    Safe adapter K (terminate adapter e) (fun r l' c' =>
      Later c' l'.latch ∧ l'.latch = l.latch ∧ Recorded (terminalExit e l) r l') l c := by
  refine (wp_bind _ _).2 ((wp_get _).2 ?_)
  dsimp only
  cases ht : terminalError e l with
  | none =>
      have hx : terminalExit e l = .migrationFailed := by rw [terminalExit, ht]
      rw [hx]
      refine Records.after_fail hK _ _ (fun _ => ?_) l c hc (known_of_terminalError_none ht)
      refine Records.bind (Steady.get _) fun connected => Records.bind (Steady.onlyIf _ ?_) fun _ => Records.finish
      refine Steady.bind ?_ fun _ => Steady.closeQuietly hK
      exact (Steady.rollbackQuietly (hK _ rfl) (hK _ rfl)).outcome.weaken fun _ _ => trivial
  | some error =>
      have hx : terminalExit e l = error.exitCode := by rw [terminalExit, ht]
      have hr : Steady adapter K outcome any (recordRecovery error) :=
        Steady.onlyIf _ (Steady.modify fun _ => ⟨rfl, rfl⟩)
      rw [hx]
      by_cases he : error.exitCode = .unknownOutcome
      · refine Records.after_fail hK _ _ (fun _ => ?_) l c hc (show any l.latch.state from trivial)
        refine Records.bind hr fun _ => Records.bind (Steady.get _) fun connected => ?_
        refine Records.bind (Steady.onlyIf _ ?_) fun _ => Records.finish
        rw [decide_eq_true he, if_pos rfl]
        exact (Steady.discardQuietly fun _ h => hK _ (closingOp_of_discardOp h)).bind fun _ => Steady.pure _
      · refine Records.after_fail hK _ _ (fun _ => ?_) l c hc (known_of_terminalError ht he)
        refine Records.bind (hr.weaken fun _ _ => trivial) fun _ => Records.bind (Steady.get _) fun connected => ?_
        refine Records.bind (Steady.onlyIf _ ?_) fun _ => Records.finish
        rw [decide_eq_false he, if_neg Bool.false_ne_true]
        exact Steady.closeQuietly hK

variable {input : Input}

def exitAfter (r : Except Exc Unit) (l : Local) : Exit :=
  match r with
  | .ok _ => l.report.exitCode
  | .error e => terminalExit e l

theorem Safe.conclude (r : Except Exc Unit) (l : Local) (c : RunLatch) (hc : Later c l.latch)
    (ht : Told r l.latch) :
    Safe input.adapter K (conclude input r) (fun r' l' c' =>
      Later c' l'.latch ∧ l'.latch = l.latch ∧ Recorded (exitAfter r l) r' l') l c := by
  cases r with
  | error e => exact Safe.terminate hK e l c hc
  | ok u =>
      have ho : l.latch.state = .open := ht.isOpen
      have hrest : Records input.adapter K l.report.exitCode known (do
          closeQuietly input.adapter
          World.perform (.log "run_end")
          Engine.finish) :=
        Records.bind (Steady.closeQuietly hK) fun _ => Records.bind (Steady.log hK none) fun _ => Records.finish
      refine (wp_bind _ _).2 ((wp_modify _).2 ?_)
      exact hrest { l with reported := true } c hc (by rw [known, ho]; decide) rfl

/-- A second interrupt does not replace a recorded outcome. -/
theorem Safe.settleInterruptedTeardown {code : Exit} (l : Local) (c : RunLatch) (hc : Later c l.latch)
    (ho : outcome l = (true, code)) :
    Safe adapter K (settleInterruptedTeardown adapter) (fun r l' c' =>
      Later c' l'.latch ∧ l'.latch = l.latch ∧ Recorded code r l') l c := by
  refine (wp_bind _ _).2
    (wp_mono (Steady.discardQuietly (fun _ h => hK _ (closingOp_of_discardOp h)) l c hc trivial) ?_)
  rintro (e | dropped) l' c' ⟨hc', hl⟩
  · exact ⟨hc', hl.latch, hl.view.trans ho, nofun⟩
  · refine (wp_bind _ _).2 ((wp_get _).2 ?_)
    have hr : l'.reported = true := congrArg Prod.fst (hl.view.trans ho)
    have hrest : Records adapter K code any (do
        let error ← World.get fun l => l.latch.error.getD (interruptionError l.started)
        onlyIf (!l'.reported) (fail error error.exitCode (dropped || error.exitCode = .unknownOutcome))
        onlyIf dropped (noteDiscarded "the run was interrupted while it was ending")
        Engine.finish) := by
      rw [hr]
      refine Records.bind (Steady.get _) fun error => Records.bind (Steady.pure ()) fun _ => ?_
      exact Records.bind (Steady.onlyIf _ (Steady.noteDiscarded _)) fun _ => Records.finish
    refine wp_mono (hrest l' c' hc' trivial (hl.view.trans ho)) ?_
    rintro r l'' c'' ⟨hc'', hl', hrec⟩
    exact ⟨hc'', hl'.trans hl.latch, hrec⟩

/-- An interrupt before the run has started is reported as a failure. -/
theorem Safe.settleInterruptedStart (l : Local) (c : RunLatch) (hc : Later c l.latch)
    (hr : l.reported = false) (hl : l.latch.state = .open) :
    Safe adapter K (Engine.settleInterruptedTeardown adapter) (fun r l' c' =>
      Later c' l'.latch ∧ l'.latch = l.latch ∧ exitOf (r, l') = .migrationFailed) l c := by
  refine (wp_bind _ _).2
    (wp_mono (Steady.discardQuietly (fun _ h => hK _ (closingOp_of_discardOp h)) l c hc trivial) ?_)
  rintro (e | dropped) l' c' ⟨hc', hs⟩
  all_goals
    have he : l'.latch.error = none := (RunLatch.error_eq_none_iff _).2 (hs.isOpen hl)
    have hr' : l'.reported = false := (congrArg Prod.fst hs.view).trans hr
  · exact ⟨hc', hs.latch, by simp [exitOf, hr', he]⟩
  · refine (wp_bind _ _).2 ((wp_get _).2 ((wp_bind _ _).2 ((wp_get _).2 ?_)))
    simp only [he, hr', Option.getD_none, Bool.not_false]
    refine wp_mono (Records.after_fail hK _ _ (fun _ => ?_) l' c' hc' (show any l'.latch.state from trivial)) ?_
    · exact Records.bind (Steady.onlyIf _ (Steady.noteDiscarded _)) fun _ => Records.finish
    · rintro r l'' c'' ⟨hc'', hl', hrec⟩
      exact ⟨hc'', hl'.trans hs.latch, hrec.exitOf⟩

end Outcome

end Migr8.Teardown
