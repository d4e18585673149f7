import Migr8.Engine

namespace Migr8.CommandLine

open Errors Latch World Lib.Process

/-- How far `migrate` got. What the engine hands out is its own report. -/
structure MigrateRun where
  engine : Local
  report : Option Report := none
  exitCode : Option Exit := none

/-- The steps of the command that a signal can land in. -/
inductive CliOp where
  | handOver | cleanup | format | write | log | closeLog

abbrev Cli (α : Type) : Type := Proc CliOp (fun _ => Except Exc Unit) MigrateRun Exc α

def serveCli (_ : CliOp) (interrupted : Bool) (s : Unit) : Except Exc Unit × Unit :=
  (if interrupted then .error .interrupt else .ok (), s)

def step (op : CliOp) : Cli Unit := Proc.request (fun _ => op) (fun _ r => r)

def recordedReport (run : MigrateRun) : Option Report :=
  match run.report with
  | some report => some report
  | none => if run.engine.reported then some run.engine.report else none

/-- An interrupted removal is retried. -/
def tryCleanup : Nat → Cli Bool
  | 0 => pure false
  | n + 1 => do
      match ← (step .cleanup).attempt with
      | .ok _ => pure true
      | .error .interrupt => tryCleanup n
      | .error e => Proc.throw e

def warn (warning : String) (report : Report) : Report := { report with warnings := report.warnings ++ [warning] }

def warnReport (warning : String) (run : MigrateRun) : MigrateRun :=
  if (recordedReport run).isSome then
    { run with
      engine := { run.engine with report := warn warning run.engine.report }
      report := run.report.map (warn warning) }
  else run

def cleanupStaging (root : String) : Cli Unit := do
  let removed ← tryCleanup 2
  if removed then pure ()
  else Proc.modify (warnReport ("removing the staging directory " ++ root ++
    " was interrupted; it was left behind and can be deleted"))

def write : Cli Unit := (step .write).tryCatch fun e => if e = .interrupt then pure () else Proc.throw e

def render (code : Exit) : Cli Exit := do
  step .format
  Proc.modify fun run => { run with exitCode := some code }
  write
  return code

def renderRunReport (report : Report) : Cli Exit := render report.exitCode

section

variable (root : String)

def doMigrate (outcome : Except Exc Report) : Cli Exit := do
  Proc.finally_
    (do
      match outcome with
      | .error e => Proc.throw e
      | .ok report => do
          step .handOver
          Proc.modify fun run => { run with report := some report })
    (cleanupStaging root)
  match ← Proc.get (·.report) with
  | some report => renderRunReport report
  | none => Proc.throw (.plain "AttributeError")

/-- The latched error's code, or that of an interruption. -/
def unreportedExit (run : MigrateRun) : Exit :=
  match run.engine.latch.error with
  | some error => error.exitCode
  | none => .migrationFailed

def interruptExit (run : MigrateRun) : Exit :=
  match recordedReport run with
  | some report => report.exitCode
  | none => unreportedExit run

def renderInterruptOnce : Cli Exit := do
  match ← Proc.get recordedReport with
  | some report => renderRunReport report
  | none => do
      let code ← Proc.get unreportedExit
      (step .log).tryCatch fun e => if e = .interrupt then pure () else Proc.throw e
      render code

/-- At most once, and no interrupt escapes. -/
def renderInterrupt : Nat → Cli Exit
  | 0 => do
      match ← Proc.get (·.exitCode) with
      | some code => pure code
      | none => Proc.get interruptExit
  | n + 1 => Proc.tryCatch
      (do
        match ← Proc.get (·.exitCode) with
        | some code => pure code
        | none => renderInterruptOnce)
      fun e => if e = .interrupt then renderInterrupt n else Proc.throw e

def renderFailure (code : Exit) : Cli Exit := do
  step .log
  step .format
  write
  return code

/-- The command from the end of `Engine.run` on. -/
def main (outcome : Except Exc Report) : Cli Exit :=
  ((doMigrate root outcome).tryCatch fun
    | .migr8 e => renderFailure e.exitCode
    | .interrupt => renderInterrupt 2
    | e => if e.isException then renderFailure .usage else Proc.throw e).finally_
  ((step .closeLog).tryCatch fun e => if e = .interrupt ∨ e.isException = true then pure () else Proc.throw e)

end

variable {α : Type} {code : Exit} {run : MigrateRun} {root : String}

/-- Where the command stands once the outcome is recorded: every code it can give is that of the report. -/
structure Decided (code : Exit) (run : MigrateRun) : Prop where
  reported : run.engine.reported = true
  engine : run.engine.report.exitCode = code
  report : ∀ report, run.report = some report → report.exitCode = code
  exit : ∀ c, run.exitCode = some c → c = code

/-- However the steps go, the command stays decided, and ends as stated. -/
abbrev Ends (m : Cli α) (P : Except Exc α → MigrateRun → Prop) (run : MigrateRun) : Prop :=
  wp serveCli (fun _ _ _ => True) (fun _ _ => True) m (fun r run _ => P r run) run ()

theorem step_ends {op : CliOp} {P : Except Exc Unit → MigrateRun → Unit → Prop} (hok : P (.ok ()) run ())
    (hint : P (.error .interrupt) run ()) :
    wp serveCli (fun _ _ _ => True) (fun _ _ => True) (step op) P run () := by
  refine (wp_request _ _).2 ⟨trivial, fun interrupted _ => ?_⟩
  cases interrupted with
  | false => exact hok
  | true => exact hint

theorem Decided.recordedReport (h : Decided code run) :
    ∃ report, CommandLine.recordedReport run = some report ∧ report.exitCode = code := by
  unfold CommandLine.recordedReport
  cases hr : run.report with
  | some report => exact ⟨report, rfl, h.report report hr⟩
  | none => exact ⟨_, if_pos h.reported, h.engine⟩

theorem Decided.warnReport (h : Decided code run) (warning : String) : Decided code (warnReport warning run) := by
  unfold CommandLine.warnReport
  split
  · refine ⟨h.reported, h.engine, fun report hr => ?_, h.exit⟩
    obtain ⟨report', hr', rfl⟩ := Option.map_eq_some_iff.1 hr
    exact h.report report' hr'
  · exact h

theorem tryCleanup_ends (n : Nat) (h : Decided code run) :
    Ends (tryCleanup n) (fun r run' => (∃ b, r = .ok b) ∧ Decided code run' ∧ run'.report = run.report) run := by
  induction n with
  | zero => exact ⟨⟨_, rfl⟩, h, rfl⟩
  | succ n ih =>
      refine (wp_bind _ _).2 ((wp_attempt _).2 (step_ends ?_ ?_))
      · exact ⟨⟨true, rfl⟩, h, rfl⟩
      · exact ih

theorem cleanupStaging_ends (h : Decided code run) : Ends (cleanupStaging root) (fun r run' =>
    r = .ok () ∧ Decided code run' ∧ (run'.report = none → run.report = none)) run := by
  refine (wp_bind _ _).2 (wp_mono (tryCleanup_ends 2 h) ?_)
  rintro r run' s ⟨⟨removed, rfl⟩, hd, hr⟩
  cases removed with
  | true => exact ⟨rfl, hd, fun hn => hr.symm.trans hn⟩
  | false =>
      refine (wp_modify _).2 ⟨rfl, hd.warnReport _, fun hn => ?_⟩
      unfold warnReport at hn
      split at hn
      · exact hr.symm.trans (Option.map_eq_none_iff.1 hn)
      · exact hr.symm.trans hn

theorem render_ends (h : Decided code run) : Ends (render code) (fun r run' =>
    (r = .ok code ∨ r = .error .interrupt) ∧ Decided code run') run := by
  have hd : Decided code { run with exitCode := some code } :=
    ⟨h.reported, h.engine, h.report, fun c hc => (Option.some.inj hc).symm⟩
  refine (wp_bind _ _).2 (step_ends ?_ ?_)
  · refine (wp_bind _ _).2 ((wp_modify _).2 ((wp_bind _ _).2 ((wp_tryCatch _ _).2 (step_ends ?_ ?_))))
    · exact ⟨.inl rfl, hd⟩
    · exact ⟨.inl rfl, hd⟩
  · exact ⟨.inr rfl, h⟩

theorem renderRunReport_ends {report : Report} (h : Decided code run) (he : report.exitCode = code) :
    Ends (renderRunReport report) (fun r run' => (r = .ok code ∨ r = .error .interrupt) ∧ Decided code run') run := by
  subst he
  exact render_ends h

theorem renderInterrupt_ends (n : Nat) (h : Decided code run) :
    Ends (renderInterrupt n) (fun r _ => r = .ok code) run := by
  induction n generalizing run with
  | zero =>
      refine (wp_bind _ _).2 ((wp_get _).2 ?_)
      dsimp only
      cases hc : run.exitCode with
      | some c => exact congrArg Except.ok (h.exit c hc)
      | none =>
          obtain ⟨report, hr, he⟩ := h.recordedReport
          refine (wp_get _).2 (congrArg Except.ok ?_)
          rw [interruptExit, hr]
          exact he
  | succ n ih =>
      refine (wp_tryCatch _ _).2 ((wp_bind _ _).2 ((wp_get _).2 ?_))
      dsimp only
      cases hc : run.exitCode with
      | some c => exact congrArg Except.ok (h.exit c hc)
      | none =>
          obtain ⟨report, hr, he⟩ := h.recordedReport
          refine (wp_bind _ _).2 ((wp_get _).2 ?_)
          rw [hr]
          refine wp_mono (renderRunReport_ends h he) ?_
          rintro r run' s ⟨rfl | rfl, hd⟩
          · rfl
          · exact ih hd

/-- Once the engine has recorded the outcome, the command ends with its exit code,
wherever it is interrupted and however often. -/
theorem main_ends (outcome : Except Exc Report) (l : Local) (hr : l.reported = true)
    (h : outcome = .ok l.report ∨ outcome = .error .interrupt) :
    Ends (main root outcome) (fun r _ => r = .ok l.report.exitCode) { engine := l } := by
  have hstart : Decided l.report.exitCode { engine := l } := ⟨hr, rfl, nofun, nofun⟩
  have hmigrate : Ends (doMigrate root outcome) (fun r run =>
      (r = .ok l.report.exitCode ∨ r = .error .interrupt) ∧ Decided l.report.exitCode run) { engine := l } := by
    have hgiven : Decided l.report.exitCode { engine := l, report := some l.report } :=
      ⟨hr, rfl, fun report he => congrArg (·.exitCode) (Option.some.inj he).symm, nofun⟩
    have hgo : Ends (cleanupStaging root) (fun r run => r = .ok () ∧
        Decided l.report.exitCode run ∧ run.report ≠ none) { engine := l, report := some l.report } := by
      refine wp_mono (cleanupStaging_ends hgiven) ?_
      rintro r run s ⟨rfl, hd, hn⟩
      exact ⟨rfl, hd, fun he => nomatch hn he⟩
    refine (wp_bind _ _).2 ((wp_finally _ _).2 ?_)
    rcases h with rfl | rfl
    · refine (wp_bind _ _).2 (step_ends ?_ ?_)
      · refine (wp_modify _).2 (wp_mono hgo ?_)
        rintro r run s ⟨rfl, hd, hne⟩
        obtain ⟨report, hreport⟩ := Option.ne_none_iff_exists'.1 hne
        refine (wp_bind _ _).2 ((wp_get _).2 ?_)
        dsimp only
        rw [hreport]
        exact renderRunReport_ends hd (hd.report report hreport)
      · refine wp_mono (cleanupStaging_ends hstart) ?_
        rintro r run s ⟨rfl, hd, -⟩
        exact ⟨.inr rfl, hd⟩
    · refine (wp_throw _).2 (wp_mono (cleanupStaging_ends hstart) ?_)
      rintro r run s ⟨rfl, hd, -⟩
      exact ⟨.inr rfl, hd⟩
  have hclose {run : MigrateRun} : Ends ((step .closeLog).tryCatch fun e =>
      if e = .interrupt ∨ e.isException = true then pure () else Proc.throw e) (fun r _ => r = .ok ()) run :=
    (wp_tryCatch _ _).2 (step_ends rfl rfl)
  refine (wp_finally _ _).2 ((wp_tryCatch _ _).2 (wp_mono hmigrate ?_))
  rintro r run s ⟨rfl | rfl, hd⟩
  · refine wp_mono hclose ?_
    rintro r run s rfl
    rfl
  · refine wp_mono (renderInterrupt_ends 2 hd) ?_
    rintro r run s rfl
    refine wp_mono hclose ?_
    rintro r run s rfl
    rfl

end Migr8.CommandLine
