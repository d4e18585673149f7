import Migr8.Metadata
import Migr8.Context

namespace Migr8.Engine

open Errors Model Latch Driver Database World Adapters Metadata StateValidate Context Lib.Process

variable {α : Type}

/-- One `migrate` run. Loading a Python unit imports its module, which may raise
anything; what it gives is the `migrate` function, applied to `ctx.attempt`. -/
structure Input where
  config : Config
  texts : Texts
  capture : Capture
  recoverId : Option String := none
  loadEntry : CapturedUnit → Except Exc (Option Int → Program)

def Input.adapter (input : Input) : Adapter := input.config.adapter

def Input.env (input : Input) (unit : CapturedUnit) : Env := ⟨input.config, input.texts, unit⟩

def liftError : Except Migr8Error α → Run α
  | .ok a => pure a
  | .error e => raise e

inductive SqlCategory where
  | atomicStatement | restartableDdl | restartableProcedural
  deriving DecidableEq, Repr

structure AdmittedSql where
  statement : String
  category : SqlCategory
  deriving DecidableEq, Repr

section Preflight

variable (input : Input)

def admitSqlEntry (unit : CapturedUnit) (phase : String) : Run AdmittedSql := do
  let sql ← liftText (input.texts.readSqlEntry unit phase)
  if unit.mode = .atomic then do
    refuse (input.texts.admitStatement sql .atomic false)
    return ⟨sql, .atomicStatement⟩
  else if input.texts.isProcedural sql then do
    refuse (input.texts.admitStatement sql .restartable false)
    return ⟨sql, .restartableProcedural⟩
  else do
    refuse (input.texts.admitDdl sql)
    return ⟨sql, .restartableDdl⟩

/-- Only Oracle can check declared objects. -/
def admitRequiredObjects (required : List RequiredObject) : Run Unit :=
  if input.adapter = .oracle then refuse ((input.texts.admitRequired required).map .refused)
  else if required = [] then pure ()
  else raise
    { kind := .unsupportedCapability
      message := "the " ++ input.adapter.name ++ " adapter cannot check required-object declarations (" ++
        String.intercalate ", " (required.map fun o => o.type ++ " " ++ o.name) ++
        "); a validity contract must be defined and fingerprinted explicitly before it is admitted" }

def preflightUnit (unit : CapturedUnit) : Run Unit := do
  admitRequiredObjects input unit.required
  match unit.language with
  | .sql => do
      let _ ← admitSqlEntry input unit "preflight"
  | .python => liftText (input.texts.compilePython unit)

def preflight : List CapturedUnit → Run Unit
  | [] => pure ()
  | unit :: units => do
      preflightUnit input unit
      preflight units

end Preflight

section Teardown

variable (adapter : Adapter)

def describe (e : Exc) : String :=
  match e with
  | .migr8 e => e.report
  | e => describeException adapter e

def rollbackQuietly : Run Unit := do
  if ← get (·.latch.unknown) then pure ()
  else (rollback adapter).tryCatch fun e => if e.isException then pure () else Proc.throw e

/-- An interrupted attempt is repeated, a failed one is not. -/
def tryDiscard : Nat → Run Unit
  | 0 => pure ()
  | n + 1 => do
      match ← (discard adapter).attempt with
      | .ok _ => pure ()
      | .error .interrupt => tryDiscard n
      | .error e => if e.isException then pure () else Proc.throw e

def discardQuietly : Run Bool := do
  let held ← get (·.connectionHeld)
  tryDiscard adapter 2
  return held

def noteDiscarded (reason : String) : Run Unit :=
  modify fun l => { l with report := { l.report with
    connectionDiscarded := true
    warnings := l.report.warnings ++ [reason ++
      "; the connection was discarded without further SQL. The server ends the session and " ++
      "releases the namespace lock when it notices, so a rerun started at once can exit 5 until then."] } }

def closeQuietly : Run Unit :=
  (close adapter).tryCatch fun
    | .interrupt => do
        let dropped ← discardQuietly adapter
        onlyIf dropped (noteDiscarded "closing the connection was interrupted")
    | e => if e.isException then pure () else Proc.throw e

def fail (e : Migr8Error) (code : Exit) (discarded : Bool) : Run Unit := do
  modify fun l => { l with
    report := { l.report with
      exitCode := code
      message := some e.report
      failedMigration := e.migrationId
      phase := e.phase
      connectionDiscarded := discarded }
    reported := true }
  perform (.log "run_end" e.migrationId)

def finish : Run Report := get (·.report)

def interruption (e : Exc) : Migr8Error :=
  if e = .interrupt then
    { kind := .migrationFailed
      message := "the run was interrupted (KeyboardInterrupt); uncommitted work was rolled back and " ++
        "any restartable migration remains ACTIVE. Rerun to continue."
      phase := some "interrupted" }
  else
    { kind := .migrationFailed
      message := "the run failed unexpectedly (" ++ describe adapter e ++ "); uncommitted work was " ++
        "rolled back and any restartable migration remains ACTIVE"
      phase := some "internal_error" }

def handleInterruption (e : Exc) : Run Report := do
  fail (interruption adapter e) .migrationFailed false
  let connected ← get (·.connected)
  onlyIf connected do
    rollbackQuietly adapter
    closeQuietly adapter
  finish

/-- What ends the run: the latched error before the exception that arrived. -/
def terminalError (e : Exc) (l : Local) : Option Migr8Error :=
  match l.latch.error, e with
  | some error, _ => some error
  | none, .migr8 error => some error
  | none, _ => none

def recordRecovery (error : Migr8Error) : Run Unit :=
  onlyIf (error.kind = .recoveryRequired)
    (modify fun l => { l with report := { l.report with recoveryId := error.migrationId } })

def terminate (e : Exc) : Run Report := do
  match ← get (terminalError e) with
  | none => handleInterruption adapter e
  | some error => do
      let discarded : Bool := error.exitCode = .unknownOutcome
      fail error error.exitCode discarded
      recordRecovery error
      let connected ← get (·.connected)
      onlyIf connected (if discarded then do
          let _ ← discardQuietly adapter
        else closeQuietly adapter)
      finish

def interruptionError (started : Bool) : Migr8Error where
  kind := .migrationFailed
  message :=
    if started then
      "the run was interrupted (KeyboardInterrupt) while it was ending; uncommitted work was " ++
        "rolled back and any restartable migration remains ACTIVE. Rerun to continue."
    else
      "the run was interrupted (KeyboardInterrupt) before it started; nothing was sent to the " ++
        "database. Rerun to continue."
  phase := some "interrupted"

/-- The run was interrupted before it started, or again while it was ending. -/
def settleInterruptedTeardown : Run Report := do
  let dropped ← discardQuietly adapter
  let reported ← get (·.reported)
  let error ← get fun l => l.latch.error.getD (interruptionError l.started)
  onlyIf (!reported)
    (fail error error.exitCode (dropped || error.exitCode = .unknownOutcome))
  onlyIf dropped (noteDiscarded "the run was interrupted while it was ending")
  finish

end Teardown

section Execution

variable (input : Input)

def checkResult (value : Returned) (migrationId : String) : Run Unit :=
  match value with
  | .nothing => pure ()
  | .deferred kind => raise
      { kind := .unit
        message := "migration " ++ pyRepr migrationId ++ " returned " ++ kind ++
          " work from migrate(ctx) instead of doing it. The engine runs no event loop and consumes " ++
          "no generator, so the body never ran and no history row may be written."
        migrationId := some migrationId }
  | .other typeName => raise
      { kind := .unit
        message := "migration " ++ pyRepr migrationId ++ " returned " ++ typeName ++
          " from migrate(ctx); the entry point returns None"
        migrationId := some migrationId }

def invokePython (unit : CapturedUnit) (attempt : Option Int) : Run Unit :=
  match input.loadEntry unit with
  | .error e => Proc.throw e
  | .ok migrate => do
      let value ← runProgram (input.env unit) (migrate attempt)
      checkResult value unit.id

/-- Whether a SQL file's one call can commit follows from its category. -/
def invokeSql (unit : CapturedUnit) : Run Unit := do
  let admitted ← admitSqlEntry input unit "migration_execution"
  let guard (phase operation : String) (commitCapable : Bool) : Guard :=
    { operation, phase, migrationId := some unit.id, commitCapable }
  match admitted.category with
  | .atomicStatement => do
      let _ ← guarded input.adapter (guard "migration_execution" "execute" false)
        (perform (.statement ⟨unit.id, none⟩ .execute admitted.statement false))
  | .restartableProcedural => do
      let _ ← guarded input.adapter (guard "migration_execution" "execute" true)
        (perform (.statement ⟨unit.id, none⟩ .execute admitted.statement true))
  | .restartableDdl => do
      if ← hasOpenTransaction input.adapter then
        raise
          { kind := .migrationFailed
            message := "migration " ++ pyRepr unit.id ++
              " cannot run DDL with a transaction already open"
            phase := some "migration_execution"
            migrationId := some unit.id }
      else
        guarded input.adapter (guard "restartable_ddl" "DDL execution" true)
          (executeDdl input.adapter ⟨unit.id, none⟩ admitted.statement
            (input.texts.isConcurrent admitted.statement))

def invokeEntry (unit : CapturedUnit) (attempt : Option Int) : Run Unit :=
  match unit.language with
  | .sql => invokeSql input unit
  | .python => invokePython input unit attempt

def runEntry (unit : CapturedUnit) (attempt : Option Int) : Run Unit := do
  let r ← (invokeEntry input unit attempt).attempt
  perform (.ended unit.id r)
  match r with
  | .ok _ => pure ()
  | .error e => Proc.throw e

def invoke (unit : CapturedUnit) (attempt : Option Int) : Run Unit := do
  modify fun l => { l with facade := {} }
  perform (.invoke unit.id attempt)
  runEntry input unit attempt

def latchedOr (ordinary : Migr8Error) : Run α := do
  raise ((← get (·.latch.error)).getD ordinary)

def notValid (unit : CapturedUnit) (failures : List String) : Migr8Error where
  kind := .migrationFailed
  message := "declared required objects are not valid after execution: " ++
    String.intercalate "; " failures
  phase := some "final_validity"
  migrationId := some unit.id

/-- The read-only final check; warnings never fail the run. -/
def requireValid (unit : CapturedUnit) : Run Unit := do
  let validity ← checkRequiredObjects input.adapter unit.required
  modify fun l => { l with report := { l.report with warnings := l.report.warnings ++ validity.warnings } }
  if validity.failures = [] then pure () else raise (notValid unit validity.failures)

def atomicFailed (unit : CapturedUnit) (e : Exc) : Migr8Error where
  kind := .migrationFailed
  message := "atomic migration " ++ pyRepr unit.id ++ " failed and was rolled back: " ++
    describe input.adapter e
  phase := some "migration_execution"
  migrationId := some unit.id

def atomicBody (unit : CapturedUnit) (identity : Identity) : Run Unit := do
  invoke input unit none
  checkLatch
  requireValid input unit
  checkTransactionIdentity input.adapter (some identity) unit.id "atomic" "No success row was written."
  insertSuccessRow input.config unit

def handleAtomic (unit : CapturedUnit) (e : Exc) : Run Unit :=
  match e.kind? with
  | some .unknownOutcome => Proc.throw e
  | some .contractViolation | some .migrationFailed => do
      rollbackQuietly input.adapter
      Proc.throw e
  | _ =>
      if e.isException then do
        rollbackQuietly input.adapter
        latchedOr (atomicFailed input unit e)
      else Proc.throw e

def runAtomic (unit : CapturedUnit) : Run Unit := do
  begin input.adapter
  let identity ← establishTransactionIdentity input.adapter
  (atomicBody input unit identity).tryCatch (handleAtomic input unit)
  durableCommit input.adapter .atomicCompletion (some unit.id)

/-- The admission, which commits before any migration code runs, and the attempt
it stands for: the one in the snapshot, plus one. -/
def admitUnit (unit : CapturedUnit) (active : Option HistoryRow) : Run (Option Int) :=
  match active with
  | none => do
      insertActiveRow input.config unit
      return some 1
  | some row => do
      updateActiveAttempt input.config unit
      return row.attempt.map (· + 1)

def postReturnCleanup : Run Unit := do
  let latch ← get (·.latch)
  if latch.unknown then pure ()
  else if latch.latched then rollbackQuietly input.adapter
  else do
    let opened ← hasOpenTransaction input.adapter
    onlyIf opened (rollbackQuietly input.adapter)

def restartableFailed (unit : CapturedUnit) (e : Exc) : Migr8Error where
  kind := .migrationFailed
  message := "restartable migration " ++ pyRepr unit.id ++
    " failed; it remains ACTIVE and will be re-entered from its entry point on the next run: " ++
    describe input.adapter e
  phase := some "migration_execution"
  migrationId := some unit.id

def handleRestartable (unit : CapturedUnit) (e : Exc) : Run Unit :=
  match e.kind? with
  | some .unknownOutcome => Proc.throw e
  | some .contractViolation | some .migrationFailed => do
      postReturnCleanup input
      Proc.throw e
  | _ =>
      if e.isException then do
        postReturnCleanup input
        latchedOr (restartableFailed input unit e)
      else Proc.throw e

def leftOpen (unit : CapturedUnit) : Migr8Error where
  kind := .migrationFailed
  message := "restartable migration " ++ pyRepr unit.id ++
    " returned with an open transaction; uncommitted work was rolled back and the migration remains " ++
    "ACTIVE. The engine does not silently commit forgotten work."
  phase := some "post_return_state"
  migrationId := some unit.id

/-- The batch object is asked first; the database only if it knows of no batch. -/
def transactionLeftOpen : Run Bool := do
  if ← get (·.facade.openBatch.isSome) then return true
  else hasOpenTransaction input.adapter

def runRestartable (unit : CapturedUnit) (active : Option HistoryRow) : Run Unit := do
  let attempt ← admitUnit input unit active
  perform (.log "admitted" (some unit.id))
  (invoke input unit attempt).tryCatch (handleRestartable input unit)
  checkLatch
  if ← transactionLeftOpen input then do
    rollbackQuietly input.adapter
    raise (leftOpen unit)
  else do
    requireValid input unit
    completeActiveRow input.config unit.id

def runUnit (active : Option HistoryRow) (unit : CapturedUnit) : Run Unit :=
  match unit.mode with
  | .atomic => runAtomic input unit
  | .restartable =>
      runRestartable input unit (active.filter fun row => row.migrationId == unit.id)

def execute (active : Option HistoryRow) : List CapturedUnit → Run Unit
  | [] => pure ()
  | unit :: units => do
      perform (.log "migration_start" (some unit.id))
      runUnit input active unit
      modify fun l => { l with report := { l.report with executed := l.report.executed ++ [unit.id] } }
      perform (.log "migration_done" (some unit.id))
      execute active units

end Execution

section Run

variable (input : Input)

/-- A namespace without completed metadata holds no ACTIVE identity. -/
def admitRecoveryNamespace (report : MetadataReport) : Run Unit :=
  match input.recoverId, report.state with
  | none, _ | some _, .complete => pure ()
  | some id, .damaged => raise (damaged ("migration metadata is damaged or incompatible, so --recover " ++
      id ++ " was not considered; nothing is recreated. " ++ String.intercalate "; " report.problems))
  | some id, state => raise (invalid ("--recover " ++ id ++
      " requires an ACTIVE restartable migration, and this namespace has no initialized migration " ++
      "metadata (" ++ state.value ++ "). No metadata object was created and no migration ran; run " ++
      "migrate without --recover to initialize."))

def completeInitialization : Run MetadataReport := do
  initializeMetadata input.config
  let report ← inspectMetadata input.config
  if report.state = .complete then return report
  else raise (damaged ("metadata is not complete after initialization: " ++
    String.intercalate "; " (if report.problems = [] then ["unknown reason"] else report.problems)))

def completed (report : MetadataReport) : Run MetadataReport :=
  match report.state with
  | .damaged => raise (damaged ("migration metadata is damaged or incompatible; nothing is " ++
      "recreated. " ++ String.intercalate "; " report.problems))
  | .absent | .incompleteCompatible => completeInitialization input
  | .complete => pure report

def initializeIfNeeded (report : MetadataReport) : Run Unit := do
  let report ← completed input report
  liftError (verifyBindings input.config report.metaRow)

def buildPlan : Run Plan := do
  let snapshot ← readSnapshot input.config
  let plan ← liftError (StateValidate.buildPlan input.capture snapshot)
  liftError (match input.recoverId with
    | none => requireNoRecoveryNeeded plan
    | some id => checkRecoveryAdmission plan id)
  return plan

def openNamespace : Run Unit := do
  modify fun l => { l with started := true }
  preflight input input.capture.units
  perform (.log "preflight_passed")
  connect
  modify fun l => { l with
    connected := true
    report := { l.report with targetNamespace := some input.config.targetNamespace } }
  perform (.log "connected")
  acquireLock input.adapter
  perform (.log "lock_acquired")
  let metadata ← inspectMetadata input.config
  admitRecoveryNamespace input metadata
  prepareStorage input.adapter
  initializeIfNeeded input metadata

def migrate : Run Unit := do
  openNamespace input
  let plan ← buildPlan input
  perform (.log "plan")
  execute input plan.active plan.pending

def conclude : Except Exc Unit → Run Report
  | .error e => terminate input.adapter e
  | .ok _ => do
      modify fun l => { l with reported := true }
      closeQuietly input.adapter
      perform (.log "run_end")
      finish

def runOnce : Run Report := do
  perform (.log "run_start")
  conclude input (← (migrate input).attempt)

/-- An interrupt never replaces the outcome the run has reached. -/
def settling (m : Run Report) : Run Report :=
  m.tryCatch fun
    | .interrupt => settleInterruptedTeardown input.adapter
    | e => Proc.throw e

def run : Run Report := settling input (runOnce input)

/-- The exit code of the command, also when a further interrupt gets past `run`. -/
def exitOf : Except Exc Report × Local → Exit
  | (.ok report, _) => report.exitCode
  | (.error _, l) =>
      if l.reported then l.report.exitCode
      else match l.latch.error with
        | some e => e.exitCode
        | none => .migrationFailed

end Run

end Migr8.Engine
