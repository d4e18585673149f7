import Migr8.World

namespace Migr8.Adapters

open Errors Model Latch Driver Database World Lib.Process

variable {α : Type}

def usage (message : String) (migrationId : Option String := none) : Migr8Error :=
  { kind := .usage, message, migrationId }

def checkLatch : Run Unit := do
  match ← get (·.latch.error) with
  | some e => raise e
  | none => pure ()

structure Guard where
  operation : String
  phase : String := "metadata"
  migrationId : Option String := none
  commitCapable : Bool := false

def Guard.unknownOutcome (g : Guard) (adapter : Adapter) (e : Exc) : Migr8Error where
  kind := .unknownOutcome
  message := describeException adapter e
  phase := some g.phase
  migrationId := g.migrationId
  operation := some g.operation

/-- An interruption is definite for a call that could not commit. -/
def isDefinite (adapter : Adapter) (commitCapable : Bool) (e : Exc) : Bool :=
  if e.isException then classifyCallFailure adapter e commitCapable = .serverRejection
  else !commitCapable

def latchUnknown (g : Guard) (adapter : Adapter) (e : Exc) : Run Unit :=
  modify fun l => { l with latch := l.latch.latchUnknown (g.unknownOutcome adapter e) rfl }

/-- Submit one operation and classify its failure. -/
def guarded (adapter : Adapter) (g : Guard) (m : Run α) : Run α := do
  checkLatch
  m.tryCatch fun
    | .migr8 e => raise e
    | e =>
        if isDefinite adapter g.commitCapable e then Proc.throw e
        else do
          latchUnknown g adapter e
          raise (g.unknownOutcome adapter e)

section Transactions

variable (adapter : Adapter)

def advanceEpoch : Run Unit := modify fun l => { l with txnEpoch := l.txnEpoch + 1 }

def setEngineTransaction (value : Bool) : Run Unit := modify fun l => { l with engineTransaction := value }

/-- `_has_open_transaction`: SQLite and PostgreSQL know it locally, Oracle asks
the server. -/
def probeTransaction : Run Bool :=
  match adapter with
  | .oracle => do return (← perform .readIdentity).isSome
  | _ => do return (← perform .status) != .idle

def hasOpenTransaction : Run Bool :=
  guarded adapter { operation := "transaction-state probe", phase := "transaction_state" }
    (probeTransaction adapter)

def doBegin : Run Unit :=
  match adapter with
  | .sqlite => do
      perform .begin
      advanceEpoch
  | .postgres => perform .begin
  | .oracle => pure ()

def begin : Run Unit := do
  if ← get (·.engineTransaction) then raise (usage "an engine transaction is already open")
  else if ← hasOpenTransaction adapter then
    raise (usage "a transaction is already open with uncommitted work")
  else do
    guarded adapter { operation := "transaction begin", phase := "transaction_begin" } (doBegin adapter)
    setEngineTransaction true

/-- SQLite turns a failure that does not settle the commit into an error the
guard takes for an unknown outcome. -/
def commitFailed (wasOpen : Bool) : Exc → Run α
  | .driver ⟨name, .sqlite code⟩ =>
      if !wasOpen || settlesTheTransaction code then Proc.throw (.driver ⟨name, .sqlite code⟩)
      else Proc.throw (.commitOutcomeUnknown code)
  | e => Proc.throw e

/-- PostgreSQL refuses to commit an aborted transaction. -/
def doCommit (boundary : Boundary) : Run Unit :=
  match adapter with
  | .sqlite => do
      let wasOpen := (← perform .status) != .idle
      let _ ← (perform (.commit boundary)).tryCatch (commitFailed wasOpen)
      advanceEpoch
  | .postgres => do
      if (← perform .status) = .inError then Proc.throw (.driver inFailedSqlTransaction)
      else if ← perform (.commit boundary) then Proc.throw (.driver inFailedSqlTransaction)
      else pure ()
  | .oracle => do
      let _ ← perform (.commit boundary)

def commit (boundary : Boundary) : Run Unit := do
  doCommit adapter boundary
  setEngineTransaction false

def doRollback : Run Unit :=
  match adapter with
  | .sqlite => do
      let opened := (← perform .status) != .idle
      onlyIf opened do
        perform .rollback
        advanceEpoch
  | .postgres => do
      let opened := (← perform .status) != .idle
      onlyIf opened (perform .rollback)
  | .oracle => perform .rollback

def rollback : Run Unit := do
  doRollback adapter
  setEngineTransaction false

def durableCommit (boundary : Boundary) (migrationId : Option String := none) : Run Unit :=
  guarded adapter
    { operation := boundary.value ++ " commit"
      phase := boundary.value
      migrationId
      commitCapable := true }
    (commit adapter boundary)

inductive BatchTransactionState where
  | open | rolledBack | ended
  deriving DecidableEq, Repr

/-- On SQLite nothing admitted can commit, so a transaction that is gone was
rolled back; the other two cannot tell. -/
def batchTransactionState : Run BatchTransactionState := do
  if (← perform .status) != .idle then return .open
  else return if adapter = .sqlite then .rolledBack else .ended

def establishTransactionIdentity : Run Identity :=
  guarded adapter
    { operation := "establishing the transaction identity", phase := "transaction_identity" }
    (match adapter with
      | .sqlite => do
          if (← perform .status) != .idle then return .epoch (← get (·.txnEpoch))
          else raise (usage "no transaction is open when establishing the transaction identity")
      | _ => do return .xid (← perform .establishIdentity))

def readTransactionIdentity : Run (Option Identity) :=
  guarded adapter
    { operation := "reading the transaction identity", phase := "transaction_identity" }
    (match adapter with
      | .sqlite => do
          if (← perform .status) != .idle then return some (.epoch (← get (·.txnEpoch)))
          else return none
      | .postgres => do
          if (← perform .status) != .idle then return (← perform .readIdentity).map .xid
          else return none
      | .oracle => do return (← perform .readIdentity).map .xid)

end Transactions

structure Config where
  adapter : Adapter
  targetNamespace : String
  lockProvider : String
  lockBinding : String
  runner : RunnerInfo := {}

section History

variable (c : Config)

def exec (op : Op) (operation phase : String) (migrationId : Option String := none) : Run (Answer op) :=
  guarded c.adapter { operation, phase, migrationId } (perform op)

def insertSuccessRow (unit : CapturedUnit) : Run Unit :=
  exec c
    (.insertHistory
      { seq := unit.position
        migrationId := unit.id
        fingerprint := unit.fingerprint
        language := unit.language
        mode := unit.mode
        status := .success
        attempt := none
        runner := c.runner })
    "history SUCCESS insert" Boundary.atomicCompletion.value (some unit.id)

def insertActiveRow (unit : CapturedUnit) : Run Unit := do
  begin c.adapter
  exec c
    (.insertHistory
      { seq := unit.position
        migrationId := unit.id
        fingerprint := unit.fingerprint
        language := unit.language
        mode := .restartable
        status := .active
        attempt := some 1
        runner := c.runner })
    "history ACTIVE insert" Boundary.restartableAdmission.value (some unit.id)
  durableCommit c.adapter .restartableAdmission (some unit.id)

/-- Open a transaction, run one update, and require exactly one affected row. -/
def metadataExecuteInTransaction (update : Run Nat) (what : String) : Run Unit := do
  begin c.adapter
  let affected ← update
  if affected = 1 then pure ()
  else do
    rollback c.adapter
    raise (StateValidate.damaged (what ++ " affected " ++ toString affected ++
      " rows; exactly one ACTIVE row was expected"))

def updateActiveAttempt (unit : CapturedUnit) : Run Unit := do
  metadataExecuteInTransaction c
    (exec c (.updateAttempt unit.id unit.fingerprint unit.language c.runner)
      "history attempt update" Boundary.restartableAdmission.value (some unit.id))
    ("admitting a new attempt for " ++ pyRepr unit.id)
  durableCommit c.adapter .restartableAdmission (some unit.id)

def completeActiveRow (migrationId : String) : Run Unit := do
  metadataExecuteInTransaction c
    (exec c (.completeActive migrationId c.runner.toolVersion)
      "history SUCCESS update" Boundary.restartableCompletion.value (some migrationId))
    ("completing " ++ pyRepr migrationId)
  exec c (.deleteProgress migrationId)
    "progress deletion" Boundary.restartableCompletion.value (some migrationId)
  durableCommit c.adapter .restartableCompletion (some migrationId)

def progressGet (migrationId key : String) : Run (Option String) :=
  exec c (.progressGet migrationId key) "progress read" "progress" (some migrationId)

def progressSet (scope : Scope) (key value : String) : Run Unit := do
  if ← get (·.engineTransaction) then
    exec c (.progressSet scope key value) "progress write" "progress" (some scope.owner)
  else raise (usage "progress writes require an open batch transaction")

end History

section Execution

variable (adapter : Adapter)

/-- DDL in a transaction of its own. The rollback answers a definite rejection
only; after anything else nothing more may be sent. -/
def executeDdlInTransaction (scope : Scope) (sql : String) : Run Unit := do
  begin adapter
  let _ ← (perform (.statement scope .ddl sql true)).tryCatch fun e => do
    onlyIf (e.isException && classifyException adapter e = .serverRejection) (rollback adapter)
    Proc.throw e
  durableCommit adapter .restartableDdl

/-- `CONCURRENTLY` cannot run in a transaction block, and Oracle's DDL commits on
its own. -/
def executeDdl (scope : Scope) (sql : String) (concurrent : Bool) : Run Unit :=
  match adapter, concurrent with
  | .postgres, true | .oracle, _ => do
      let _ ← perform (.statement scope .ddl sql true)
  | _, _ => executeDdlInTransaction adapter scope sql

def checkRequired (required : List RequiredObject) : Run ValidityResult :=
  match adapter with
  | .oracle => (perform (.checkRequired required)).tryCatch fun e =>
      if isDriverError .oracle e ∧ classifyException .oracle e = .serverRejection then
        pure { failures := ["required-object inspection failed: " ++ describeException .oracle e ++
          ". An inaccessible probe is an error; it does not show that the object is absent."] }
      else Proc.throw e
  | _ => pure { failures := ["the " ++ adapter.name ++
      " adapter cannot check required-object declarations"] }

def checkRequiredObjects (required : List RequiredObject) : Run ValidityResult :=
  if required = [] then pure {}
  else guarded adapter { operation := "required-object validity check", phase := "final_validity" }
    (checkRequired adapter required)

end Execution

section Lifecycle

variable (adapter : Adapter)

def contentionSqliteCodes : List String := ["SQLITE_BUSY", "SQLITE_LOCKED"]

def isContention : Exc → Bool
  | .driver ⟨_, .sqlite (some code)⟩ => adapter = .sqlite && contentionSqliteCodes.any (startsWith code)
  | .driver ⟨_, .postgres code _⟩ => adapter = .postgres && code = some "55P03"
  | .driver ⟨_, .oracle _ code _⟩ =>
      adapter = .oracle && ["ORA-00054", "ORA-30006"].contains (code.getD "")
  | _ => false

/-- Nothing that can commit has been submitted during setup, so no outcome is in
doubt whatever the driver says. -/
def setupError (e : Exc) (doing : String) : Migr8Error :=
  let code := describeException adapter e
  if isContention adapter e then
    { kind := .lockNotAcquired
      message := "the database was busy while " ++ doing ++ " (" ++ code ++
        "). Another session holds it; contention is not evidence that the other holder has stopped."
      phase := some "connect" }
  else if classifyException adapter e = .communicationFailure then
    { kind := .connectionSetup
      message := "the connection was lost while " ++ doing ++ " (" ++ code ++
        "). Nothing that could commit had been submitted, so no outcome is in doubt. Check the " ++
        "network path and the server, then rerun."
      phase := some "connect" }
  else
    { kind := .usage
      message := "the database reported an error while " ++ doing ++ " (" ++ code ++ ")."
      phase := some "connect" }

def connect : Run Unit := do
  perform .connect
  modify fun l => { l with connectionHeld := true }

def acquireLock : Run Unit := do
  (perform .acquireLock).tryCatch fun e =>
    if isDriverError adapter e then raise (setupError adapter e "acquiring the namespace lock")
    else Proc.throw e
  modify fun l => { l with lockHeld := true }

def prepareStorage : Run Unit :=
  match adapter with
  | .sqlite => (perform .prepareStorage).tryCatch fun e =>
      if isDriverError .sqlite e then
        raise { kind := .unsupportedCapability
                message := "the journal mode could not be established: " ++
                  describeException .sqlite e ++ ". A mode change needs exclusive access to the " ++
                  "database file, so another connection may hold it" }
      else Proc.throw e
  | _ => pure ()

def dropLock : Run Unit := modify fun l => { l with lockHeld := false }

def dropConnection : Run Unit := modify fun l => { l with connectionHeld := false }

def suppressDriverError (m : Run Unit) : Run Unit :=
  m.tryCatch fun e => if isDriverError adapter e then pure () else Proc.throw e

def releaseLock : Run Unit := do
  let held ← get (·.lockHeld)
  onlyIf held (match adapter with
    | .sqlite => (perform .releaseLock).finally_ dropLock
    | _ => (suppressDriverError adapter (perform .releaseLock)).finally_ dropLock)

/-- Teardown asks the driver directly, without the guard. -/
def close : Run Unit :=
  match adapter with
  | .sqlite => do
      let held ← get (·.connectionHeld)
      onlyIf held do
        let opened := (← perform .status) != .idle
        onlyIf opened (perform .closeRollback)
        perform .closeConnection
        dropConnection
      releaseLock .sqlite
  | _ => do
      let held ← get (·.connectionHeld)
      onlyIf held (Proc.finally_
        (do
          let opened ← probeTransaction adapter
          onlyIf opened (perform .closeRollback)
          releaseLock adapter)
        ((perform .closeConnection).finally_ dropConnection))

def discard : Run Unit :=
  match adapter with
  | .sqlite => do
      let held ← get (·.connectionHeld)
      onlyIf held do
        suppressDriverError .sqlite (perform .discardConnection)
        dropConnection
      releaseLock .sqlite
  | _ => do
      let held ← get (·.connectionHeld)
      onlyIf held do
        dropLock
        (suppressDriverError adapter (perform .discardConnection)).finally_ dropConnection

end Lifecycle

end Migr8.Adapters
