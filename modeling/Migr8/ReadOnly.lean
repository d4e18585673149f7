import Migr8.Engine

namespace Migr8.ReadOnly

open Errors Model Driver Database World Adapters Metadata StateValidate Engine Lib.Process

structure MigrationStatus where
  position : Nat
  id : String
  state : String
  mode : String
  language : String
  currentFingerprint : String
  recordedFingerprint : Option String := none
  recordedMatchesCurrent : Option Bool := none
  firstFingerprint : Option String := none
  firstMatchesLatest : Option Bool := none
  attempt : Option Int := none
  startedAt : Option Timestamp := none
  lastAttemptAt : Option Timestamp := none
  finishedAt : Option Timestamp := none
  runnerHost : Option String := none
  runnerUser : Option String := none
  runnerPid : Option Nat := none
  dbSession : Option String := none
  toolVersion : Option String := none
  sessionLiveness : Option String := none
  sessionLivenessDetail : Option String := none
  problem : Option String := none
  deriving DecidableEq, Repr

structure Problem where
  kind : String
  message : String
  exitCode : Exit
  migrationId : Option String := none
  deriving DecidableEq, Repr

structure Report where
  command : String
  adapter : String
  targetNamespace : String
  metadataState : String
  initialized : Bool
  successCount : Nat := 0
  pendingCount : Nat := 0
  activeId : Option String := none
  migrations : List MigrationStatus := []
  problem : Option String := none
  problemKind : Option String := none
  problems : List Problem := []
  recoveryId : Option String := none
  exitCode : Exit := .ok
  deriving DecidableEq, Repr

def Report.problemList (r : Report) : List Problem :=
  if r.problems ≠ [] then r.problems
  else match r.problem with
    | some "" | none => []
    | some message => [{ kind := r.problemKind.getD "problem", message, exitCode := r.exitCode }]

def statusFromRow (unit : CapturedUnit) : Option HistoryRow → MigrationStatus
  | none =>
      { position := unit.position
        id := unit.id
        state := "PENDING"
        mode := unit.mode.value
        language := unit.language.value
        currentFingerprint := unit.fingerprint }
  | some row =>
      { position := unit.position
        id := unit.id
        state := row.status
        mode := row.mode
        language := row.language
        currentFingerprint := unit.fingerprint
        recordedFingerprint := some row.fingerprint
        recordedMatchesCurrent := some (row.fingerprint == unit.fingerprint)
        firstFingerprint := some row.firstFingerprint
        firstMatchesLatest := some (row.firstFingerprint == row.fingerprint)
        attempt := row.attempt
        startedAt := row.startedAt
        lastAttemptAt := row.lastAttemptAt
        finishedAt := row.finishedAt
        runnerHost := row.runner.host
        runnerUser := row.runner.user
        runnerPid := row.runner.pid
        dbSession := row.runner.dbSession
        toolVersion := some row.runner.toolVersion }

abbrev Probe : Type := Option String → Run (String × String)

section

variable (input : Input)

def baseReport (command : String) (state : MetadataState) : Report where
  command := command
  adapter := input.adapter.name
  targetNamespace := input.config.targetNamespace
  metadataState := state.value
  initialized := state = .complete
  pendingCount := input.capture.units.length

def pendingOnly (report : Report) : Report :=
  { report with migrations := input.capture.units.map fun unit => statusFromRow unit none }

def probeSessionLiveness (probe : Probe) (session : Option String) : Run (String × String) :=
  guarded input.adapter { operation := "session-liveness probe", phase := "session_liveness" } (probe session)

/-- One entry of the list: a row that is not SUCCESS makes its unit the active one. -/
def fillUnit (rows : List HistoryRow) (liveness : Option Probe) (report : Report) (unit : CapturedUnit) : Run Report :=
  match rows.reverse.find? (fun r => r.migrationId == unit.id) with
  | none => return { report with
      migrations := report.migrations ++ [statusFromRow unit none]
      pendingCount := report.pendingCount + 1 }
  | some row =>
      let entry := statusFromRow unit (some row)
      if row.isSuccess then return { report with
        migrations := report.migrations ++ [entry]
        successCount := report.successCount + 1 }
      else do
        let entry ← match liveness with
          | none => pure entry
          | some probe => do
              let (verdict, detail) ← probeSessionLiveness input probe row.runner.dbSession
              pure { entry with sessionLiveness := some verdict, sessionLivenessDetail := some detail }
        return { report with
          migrations := report.migrations ++ [entry]
          pendingCount := report.pendingCount + 1
          activeId := some row.migrationId }

def fillUnits (rows : List HistoryRow) (liveness : Option Probe) (report : Report) : List CapturedUnit → Run Report
  | [] => pure report
  | unit :: units => do fillUnits rows liveness (← fillUnit input rows liveness report unit) units

def fill (report : Report) (snapshot : Snapshot) (liveness : Option Probe) : Run Report :=
  fillUnits input snapshot.history liveness
    { report with migrations := [], successCount := 0, pendingCount := 0, activeId := none } input.capture.units

def refused (report : Report) (kind problem : String) (code : Exit) : Report :=
  { report with problemKind := some kind, problem := some problem, exitCode := code }

def prepare (command : String) : Run (Report × Option Snapshot) := do
  let found ← inspectMetadata input.config
  let report := baseReport input command found.state
  match found.state with
  | .damaged => return (pendingOnly input
      (refused report "metadata damaged" (String.intercalate "; " found.problems) .metadataDamaged), none)
  | .absent | .incompleteCompatible => return (pendingOnly input
      (refused report "not initialized"
        ("the namespace has no completed migration metadata. Read-only commands only; run migrate to " ++
          "initialize. Absence of metadata is not proof that application objects have never been migrated.")
        .notInitialized), none)
  | .complete =>
      match verifyBindings input.config found.metaRow with
      | .error e => return (pendingOnly input (refused report "binding mismatch" e.report e.exitCode), none)
      | .ok _ => return (report, some (← readSnapshot input.config))

def checkPlan (snapshot : Snapshot) : Except Migr8Error Unit := do
  requireNoRecoveryNeeded (← StateValidate.buildPlan input.capture snapshot)

def recorded (report : Report) (recoverySuffix : String) (e : Migr8Error) : Report :=
  match e.kind with
  | .recoveryRequired =>
      { refused report "recovery required" (e.message ++ recoverySuffix) e.exitCode with recoveryId := e.migrationId }
  | .metadataDamaged => refused report "metadata damaged" e.report e.exitCode
  | _ => refused report "validation" e.report e.exitCode

def read (command : String) (liveness : Option Probe) (recoverySuffix : String) : Run Report := do
  let (report, snapshot) ← prepare input command
  match snapshot with
  | none => return report
  | some snapshot => do
      let report ← fill input report snapshot liveness
      return match checkPlan input snapshot with
        | .ok _ => report
        | .error e => recorded report recoverySuffix e

/-- A preflight problem beside what the database says; the database decides. -/
def attachPreflightProblem (report : Report) (e : Migr8Error) : Report :=
  let found : Problem :=
    { kind := "preflight", message := e.report, exitCode := e.exitCode, migrationId := e.migrationId }
  let migrations := report.migrations.map fun entry =>
    if some entry.id = e.migrationId then { entry with problem := some e.message } else entry
  match report.problem with
  | none => { report with
      migrations
      problemKind := some found.kind
      problem := some found.message
      exitCode := found.exitCode
      problems := [found] }
  | some _ => { report with migrations, problems := report.problemList.take 1 ++ [found] }

/-- `validate` stops at a preflight error; `status` keeps it for the end. -/
def runPreflight (deferPreflight : Bool) : Run (Option Migr8Error) :=
  (do
    preflight input input.capture.units
    return none : Run (Option Migr8Error)).tryCatch fun
      | .migr8 e => if deferPreflight then return some e else raise e
      | e => Proc.throw e

def runReadOnly (command : String) (liveness : Option Probe) (recoverySuffix : String) (deferPreflight : Bool) :
    Run Report := do
  let deferred ← runPreflight input deferPreflight
  connect
  let report ← (read input command liveness recoverySuffix).finally_ (close input.adapter)
  return match deferred with
    | none => report
    | some e => attachPreflightProblem report e

def runValidate : Run Report :=
  runReadOnly input "validate" none
    " This is a recovery-required condition, not permission to modify the active marker." false

def runStatus (probe : Probe) : Run Report := runReadOnly input "status" (some probe) "" true

end

def exitOf : Except Exc Report → Exit
  | .ok report => report.exitCode
  | .error (.migr8 e) => e.exitCode
  | .error e => if e.isException then .usage else .migrationFailed

end Migr8.ReadOnly
