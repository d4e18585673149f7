import Migr8.Lib.Process
import Migr8.Latch
import Migr8.StateValidate
import Migr8.Database

namespace Migr8.World

open Errors Model Latch Driver Database Lib.Interaction Lib.Process

inductive Identity where
  | epoch (n : Nat)
  | xid (n : Nat)
  deriving DecidableEq, Repr

def Identity.text : Identity → String
  | .epoch n => "sqlite-txn:" ++ toString n
  | .xid n => toString n

inductive Boundary where
  | metadataObjectCreated | initializationComplete | atomicCompletion | restartableAdmission
  | restartableBatch | restartableCompletion | restartableDdl
  deriving DecidableEq, Repr

def Boundary.value : Boundary → String
  | .metadataObjectCreated => "metadata_object_created"
  | .initializationComplete => "initialization_complete"
  | .atomicCompletion => "atomic_completion"
  | .restartableAdmission => "restartable_admission"
  | .restartableBatch => "restartable_batch"
  | .restartableCompletion => "restartable_completion"
  | .restartableDdl => "restartable_ddl"

structure Report where
  exitCode : Exit := .ok
  message : Option String := none
  executed : List String := []
  warnings : List String := []
  connectionDiscarded : Bool := false
  failedMigration : Option String := none
  phase : Option String := none
  recoveryId : Option String := none
  targetNamespace : Option String := none
  deriving DecidableEq, Repr

/-- The context object of the running invocation. `batches` holds the identity
of every batch object handed out; `entered` counts the batches begun. -/
structure Facade where
  inBatch : Bool := false
  openBatch : Option Nat := none
  batches : List (Option Identity) := []
  entered : Nat := 0
  deriving DecidableEq, Repr

def Facade.block (f : Facade) : Option Nat := if f.inBatch then some f.entered else none

/-- The mutable state of the running process: the engine, its latch, the adapter
and the context it handed out. -/
structure Local where
  latch : RunLatch := .fresh
  engineTransaction : Bool := false
  txnEpoch : Nat := 0
  connected : Bool := false
  connectionHeld : Bool := false
  lockHeld : Bool := false
  facade : Facade := {}
  report : Report := {}
  reported : Bool := false
  started : Bool := false
  deriving DecidableEq

inductive Verb where
  | execute | executemany | query | ddl
  deriving DecidableEq, Repr

inductive Call where
  | execute (sql : String)
  | executemany (sql : String) (sets : Nat)
  | query (sql : String)
  | sql (path : String)
  | log (message : String)
  | progressGet (key : String)
  | progressSet (key value : String)
  | transaction
  | enter (batch : Nat)
  | exit (batch : Nat) (failed : Bool)
  | ddl (sql : String)
  deriving DecidableEq, Repr

/-- Everything a run does that can fail, end the process or be seen from
outside. `invoke`, `back` and `ended` mark where migration code gets control,
gets it back and gives it up. -/
inductive Op where
  | log (event : String) (migration : Option String := none)
  | connect
  | acquireLock
  | prepareStorage
  | objectsPresent
  | definitionProblems (present : List ObjectName)
  | countMeta
  | readMarker
  | countHistory
  | countProgress
  | createObject (name : ObjectName)
  | insertMarker (row : MetaRow)
  | status
  | begin
  | snapshotBegin
  | commit (boundary : Boundary)
  | snapshotCommit
  | rollback
  | establishIdentity
  | readIdentity
  | readHistory
  | readProgress
  | readSnapshot
  | decode
  | insertHistory (row : HistoryInsert)
  | updateAttempt (id fingerprint : String) (language : Language) (runner : RunnerInfo)
  | completeActive (id toolVersion : String)
  | deleteProgress (id : String)
  | progressGet (id key : String)
  | progressSet (scope : Scope) (key value : String)
  | checkRequired (required : List RequiredObject)
  | statement (scope : Scope) (verb : Verb) (sql : String) (commitCapable : Bool)
  | invoke (id : String) (attempt : Option Int)
  | back (call : Call) (result : Except Exc Value)
  | ended (id : String) (result : Except Exc Unit)
  | closeRollback
  | releaseLock
  | closeConnection
  | discardConnection

/-- What the driver knows about the transaction without asking the server. -/
inductive TxnStatus where
  | idle | open | inError
  deriving DecidableEq, Repr

@[reducible] def Answer : Op → Type
  | .objectsPresent => List ObjectName
  | .definitionProblems _ => List String
  | .countMeta | .countHistory | .countProgress => Nat
  | .readMarker => List MetaRow
  | .status => TxnStatus
  | .commit _ | .snapshotCommit => Bool
  | .establishIdentity => Nat
  | .readIdentity => Option Nat
  | .readHistory => List HistoryRow
  | .readProgress => List ProgressRow
  | .readSnapshot => Snapshot × Nat
  | .updateAttempt .. | .completeActive .. => Nat
  | .progressGet .. => Option String
  | .checkRequired _ => ValidityResult
  | .statement .. => Value
  | _ => Unit

/-- A request shows the state of the process that makes it. -/
structure Request where
  op : Op
  state : Local

abbrev Reply (q : Request) : Type := Except Exc (Answer q.op)

/-- The ops that put something on the connection. SQLite's namespace lock is a
file lock. -/
def Op.submits (adapter : Adapter) : Op → Bool
  | .log .. | .status | .decode | .invoke .. | .back .. | .ended .. | .closeConnection
  | .discardConnection => false
  | .acquireLock | .releaseLock => adapter != .sqlite
  | _ => true

def txnStatus (s : Session) : TxnStatus :=
  match s.txn with
  | none => .idle
  | some t => if t.aborted then .inError else .open

def serveLog (event : String) (migration : Option String) (o : Outcome) (s : Session) :
    Except Exc Unit × Session :=
  if o.fault = .interrupted then (.error .interrupt, s) else (.ok (), s.note event migration)

def serveDecode (o : Outcome) (s : Session) : Except Exc Unit × Session :=
  (match o.fault with
    | .plain name => .error (.plain name)
    | .interrupted => .error .interrupt
    | _ => .ok (), s)

def serveSetup (o : Outcome) (s : Session) : Except Exc Unit × Session :=
  (match o.fault.exc, o.refusal with
    | some e, _ => .error e
    | none, some r => .error (.migr8 r.error)
    | none, none => .ok (), s)

def openTxn (adapter : Adapter) (s : Session) : Except DriverError Unit × Session :=
  match s.txn with
  | none => (.ok (), { s with txn := some { working := s.db } })
  | some _ => (if adapter = .sqlite then .error transactionStateError else .ok (), s)

def commitSettled (adapter : Adapter) (fault : Fault) : Bool :=
  match adapter with
  | .sqlite =>
      match fault with
      | .driver ⟨_, .sqlite name⟩ => settlesTheTransaction name
      | _ => false
  | _ => fault.rejects adapter true

def serveCommit (adapter : Adapter) (o : Outcome) (s : Session) : Except Exc Bool × Session :=
  match o.fault.exc with
  | none =>
      if adapter = .sqlite ∧ s.txn = none then (.error (.driver transactionStateError), s)
      else (.ok s.aborted, s.commitTxn)
  | some e =>
      (.error e,
        if commitSettled adapter o.fault then if o.spoils ∧ adapter ≠ .sqlite then s.endTxn else s
        else if o.applied then s.commitTxn
        else if o.spoils then s.endTxn else s)

def serveRollback (o : Outcome) (s : Session) : Except Exc Unit × Session :=
  match o.fault.exc with
  | none => (.ok (), s.endTxn)
  | some e => (.error e, if o.applied then s.endTxn else s)

def assignIdentity (adapter : Adapter) (s : Session) : Except DriverError Nat × Session :=
  match s.txn with
  | some t =>
      match t.xid with
      | some x => (.ok x, s)
      | none => (.ok s.nextXid, { s with
          txn := some { t with xid := some s.nextXid }
          nextXid := s.nextXid + 1 })
  | none => (.ok s.nextXid, { s with
      txn := if adapter = .oracle then some { working := s.db, xid := some s.nextXid } else none
      nextXid := s.nextXid + 1 })

/-- Oracle's DDL commits on its own. -/
def createObject (adapter : Adapter) (name : ObjectName) (s : Session) : Except DriverError Unit × Session :=
  let create (d : Db) : Except DriverError (Unit × Db) :=
    if (d.layout.holder name).free then .ok ((), { d with layout := d.layout.create name })
    else .error (constraintError adapter)
  if adapter = .oracle then
    match create s.commitTxn.db with
    | .ok (_, d) => (.ok (), { s.commitTxn with db := d })
    | .error e => (.error e, s.commitTxn)
  else write adapter true create s

def insertMarker (adapter : Adapter) (row : MetaRow) (now : Timestamp) (d : Db) : Except DriverError (Unit × Db) :=
  if d.marker = [] then .ok ((), { d with marker := [{ row with initializedAt := some now }] })
  else .error (constraintError adapter)

def insertHistory (adapter : Adapter) (row : HistoryRow) (d : Db) : Except DriverError (Unit × Db) :=
  if d.admitsRow row then .ok ((), { d with history := d.history ++ [row] })
  else .error (constraintError adapter)

def setProgress (adapter : Adapter) (engine : Bool) (scope : Scope) (row : ProgressRow) (s : Session) :
    Except DriverError Unit × Session :=
  if s.visible.admitsProgress row then
    (.ok (), s.record adapter engine (s.work scope (.checkpoint row.progKey row.progValue))
      { s.visible with progress := upsert s.visible.progress row })
  else (.error (constraintError adapter), s)

/-- Oracle commits before and after a DDL statement. -/
def statementSteps (adapter : Adapter) (verb : Verb) (o : Outcome) : List Step :=
  if verb = .ddl ∧ adapter = .oracle then .commit false :: o.steps ++ [.commit false] else o.steps

/-- A failed `executemany` keeps the parameter sets it has already run. -/
def keptSteps (adapter : Adapter) (verb : Verb) (o : Outcome) : List Step :=
  if verb = .executemany then o.steps else settledSteps (statementSteps adapter verb o)

def presentObjects (d : Db) : List ObjectName :=
  creationOrder.filter fun n =>
    match d.layout.holder n with
    | .supported | .altered _ => true
    | .vacant | .foreign _ | .trigger => false

def layoutProblems (present : List ObjectName) (d : Db) : List String :=
  present.filterMap fun n =>
    match d.layout.holder n with
    | .altered found => some found.problem
    | _ => none

def layoutFault (present : List ObjectName) (d : Db) : Option CheckFault :=
  present.findSome? fun n =>
    match d.layout.holder n with
    | .altered found => found.fault
    | _ => none

def faulted (adapter : Adapter) (fault : Option CheckFault) (r : Except Exc (List String)) : Except Exc (List String) :=
  match r, fault with
  | .ok _, some f => .error (f.exc adapter)
  | r, _ => r

def sortedProgress (d : Db) : List ProgressRow := d.progress.insertionSort progressBefore

def storedSnapshot (d : Db) : Snapshot × Nat :=
  (⟨StateValidate.sortBySeq d.history, sortedProgress d, d.marker.head?⟩, d.marker.length)

/-- The database, the driver and the rest of the world, answering one request. -/
def serve (adapter : Adapter) (q : Request) (o : Outcome) (s : Session) : Reply q × Session :=
  match q with
  | ⟨.log event migration, _⟩ => serveLog event migration o s
  | ⟨.connect, _⟩ | ⟨.acquireLock, _⟩ | ⟨.prepareStorage, _⟩ => serveSetup o s
  | ⟨.objectsPresent, _⟩ => submit adapter false o (read presentObjects) id s
  | ⟨.definitionProblems present, _⟩ =>
      let answer := submit adapter false o (read (layoutProblems present)) id s
      (faulted adapter (layoutFault present s.visible) answer.1, answer.2)
  | ⟨.countMeta, _⟩ => submit adapter false o (selectRows adapter [.metaTable] (·.marker.length)) id s
  | ⟨.readMarker, _⟩ => submit adapter false o (selectRows adapter [.metaTable] (·.marker)) id s
  | ⟨.countHistory, _⟩ => submit adapter false o (selectRows adapter [.history] (·.history.length)) id s
  | ⟨.countProgress, _⟩ => submit adapter false o (selectRows adapter [.progress] (·.progress.length)) id s
  | ⟨.createObject name, _⟩ => submit adapter true o (createObject adapter name) id s
  | ⟨.insertMarker row, l⟩ =>
      submit adapter false o (write adapter l.engineTransaction (insertMarker adapter row o.now)) id s
  | ⟨.status, _⟩ => (.ok (txnStatus s), s)
  | ⟨.begin, _⟩ | ⟨.snapshotBegin, _⟩ => submit adapter false o (openTxn adapter) id s
  | ⟨.commit _, _⟩ | ⟨.snapshotCommit, _⟩ => serveCommit adapter o s
  | ⟨.rollback, _⟩ | ⟨.closeRollback, _⟩ | ⟨.closeConnection, _⟩ | ⟨.discardConnection, _⟩ =>
      serveRollback o s
  | ⟨.establishIdentity, _⟩ => submit adapter false o (assignIdentity adapter) id s
  | ⟨.readIdentity, _⟩ => submit adapter false o (fun s => (.ok (s.txn.bind (·.xid)), s)) id s
  | ⟨.readHistory, _⟩ =>
      submit adapter false o (selectRows adapter [.history] fun d => StateValidate.sortBySeq d.history) id s
  | ⟨.readProgress, _⟩ => submit adapter false o (selectRows adapter [.progress] sortedProgress) id s
  | ⟨.readSnapshot, _⟩ =>
      submit adapter false o (selectRows adapter [.history, .progress, .metaTable] storedSnapshot) id s
  | ⟨.decode, _⟩ => serveDecode o s
  | ⟨.insertHistory i, l⟩ =>
      submit adapter false o (write adapter l.engineTransaction (insertHistory adapter (i.row o.now))) id s
  | ⟨.updateAttempt m fingerprint language runner, l⟩ =>
      submit adapter false o (write adapter l.engineTransaction fun d =>
        .ok (d.updateActive m (admitAttempt fingerprint language runner o.now))) id s
  | ⟨.completeActive m toolVersion, l⟩ =>
      submit adapter false o (write adapter l.engineTransaction fun d =>
        .ok (d.updateActive m (completeRow toolVersion o.now))) id s
  | ⟨.deleteProgress m, l⟩ =>
      submit adapter false o (write adapter l.engineTransaction fun d => .ok ((), d.deleteProgress m)) id s
  | ⟨.progressGet m key, _⟩ =>
      submit adapter false o (selectRows adapter [.progress] fun d => d.progressValue m key) id s
  | ⟨.progressSet scope key value, l⟩ =>
      submit adapter false o
        (setProgress adapter l.engineTransaction scope ⟨scope.owner, key, value, some o.now⟩) id s
  | ⟨.checkRequired _, _⟩ => submit adapter false o (fun s => (.ok o.validity, s)) id s
  | ⟨.statement scope verb _ commitCapable, _⟩ =>
      submit adapter commitCapable o
        (fun s => (.ok o.value, s.steps adapter scope (statementSteps adapter verb o)))
        (Session.steps adapter scope (keptSteps adapter verb o)) s
  | ⟨.invoke _ _, _⟩ => (.ok (), { s with invocation := s.invocation + 1 })
  | ⟨.back _ _, _⟩ | ⟨.ended _ _, _⟩ => (.ok (), s)
  | ⟨.releaseLock, _⟩ => (match o.fault.exc with | some e => .error e | none => .ok (), s)

abbrev Run (α : Type) : Type := Proc Request Reply Local Exc α

def perform (op : Op) : Run (Answer op) := Proc.request (fun l => ⟨op, l⟩) (fun _ r => r)

def raise {α : Type} (e : Migr8Error) : Run α := Proc.throw (.migr8 e)

abbrev get {α : Type} (f : Local → α) : Run α := Proc.get f

abbrev modify (f : Local → Local) : Run Unit := Proc.modify f

def onlyIf (b : Bool) (m : Run Unit) : Run Unit := if b then m else pure ()

end Migr8.World
