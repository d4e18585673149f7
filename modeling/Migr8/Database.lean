import Migr8.Model
import Migr8.Driver

namespace Migr8.Database

open Errors Model Driver

inductive ObjectName where
  | history | activeIndex | progress | metaTable
  deriving DecidableEq, Repr

def ObjectName.name : ObjectName → String
  | .history => Model.historyTable
  | .activeIndex => Model.activeIndex
  | .progress => Model.progressTable
  | .metaTable => Model.metaTable

def creationOrder : List ObjectName := [.history, .activeIndex, .progress, .metaTable]

/-- What makes a CREATE fail without being listed. The first six hold the reserved
name itself: SQLite has only views of these, and compares names without regard to
case when it creates a table, not when it is asked for one. On PostgreSQL a table
also needs the type name of its own, and the indexes of its keys need theirs
(`m8_history_pk`); on Oracle every constraint of the schema has a name of its own. -/
inductive Unlisted where
  | view | sequence | materializedView | partitionedTable | foreignTable | spelledOtherwise
  | dataType
  | constraint (name : String)
  deriving DecidableEq, Repr

/-- What the comparison of a definition raises. SQLite reports no target columns for
a foreign key that names none, which are then joined, and cannot describe a virtual
table whose module is not there. -/
inductive CheckFault where
  | keylessReference | missingModule
  deriving DecidableEq, Repr

def CheckFault.exc (adapter : Adapter) : CheckFault → Exc
  | .keylessReference => .plain "builtins.TypeError"
  | .missingModule => .driver (notATable adapter)

/-- How a listed object differs from the supported one. `noTable` says that an
index stands under a table's name. -/
structure Misfit where
  problem : String
  noTable : Bool := false
  fault : Option CheckFault := none
  deriving DecidableEq, Repr

/-- What stands under a reserved name. The dictionary queries list tables and
indexes only. A listed object other than the supported one is `altered`, a table
under the index's name and an index under a table's included; a `foreign` object
is invisible to the queries and still in the way. A SQLite `trigger` of the name is
invisible too, and in nobody's way; but once the object is there, the query for its
definition finds the trigger first. -/
inductive Holder where
  | vacant
  | supported
  | altered (found : Misfit)
  | foreign (kind : Unlisted)
  | trigger
  deriving DecidableEq, Repr

def Holder.free : Holder → Bool
  | .vacant | .trigger => true
  | .supported | .altered _ | .foreign _ => false

def behindTrigger (n : ObjectName) : Misfit where
  problem := n.name ++ (if n = .activeIndex then " is not an index" else " is not a table") ++
    ": sqlite_master records it as trigger"

def Holder.made (n : ObjectName) : Holder → Holder
  | .trigger => .altered (behindTrigger n)
  | _ => .supported

structure Layout where
  history : Holder := .supported
  activeIndex : Holder := .supported
  progress : Holder := .supported
  metaTable : Holder := .supported
  deriving DecidableEq, Repr

def Layout.holder (l : Layout) : ObjectName → Holder
  | .history => l.history
  | .activeIndex => l.activeIndex
  | .progress => l.progress
  | .metaTable => l.metaTable

def Layout.create (l : Layout) : ObjectName → Layout
  | .history => { l with history := l.history.made .history }
  | .activeIndex => { l with activeIndex := l.activeIndex.made .activeIndex }
  | .progress => { l with progress := l.progress.made .progress }
  | .metaTable => { l with metaTable := l.metaTable.made .metaTable }

inductive Item where
  | statement (tag : String)
  | checkpoint (key value : String)
  deriving DecidableEq, Repr

/-- One write of migration code: whose it is, which invocation of the code made
it, and in which batch of that invocation. -/
structure Work where
  owner : String
  invocation : Nat
  block : Option Nat
  item : Item
  deriving DecidableEq, Repr

/-- A namespace: the metadata objects and their rows, and everything migration
code has written, in order. -/
structure Db where
  layout : Layout := {}
  marker : List MetaRow := []
  history : List HistoryRow := []
  progress : List ProgressRow := []
  data : List Work := []
  deriving DecidableEq, Repr

structure HistoryInsert where
  seq : Int
  migrationId : String
  fingerprint : String
  language : Language
  mode : Mode
  status : Status
  attempt : Option Int
  runner : RunnerInfo
  deriving DecidableEq, Repr

/-- Both fingerprint columns take the same bind, and only a SUCCESS row is
inserted with a finish time. -/
def HistoryInsert.row (i : HistoryInsert) (now : Timestamp) : HistoryRow where
  seq := i.seq
  migrationId := i.migrationId
  fingerprint := i.fingerprint
  firstFingerprint := i.fingerprint
  language := i.language.value
  mode := i.mode.value
  status := i.status.value
  attempt := i.attempt
  startedAt := some now
  lastAttemptAt := some now
  finishedAt := if i.status = .success then some now else none
  runner := i.runner

def rowChecks (r : HistoryRow) : Bool :=
  0 < r.seq && ["sql", "python"].contains r.language && ["atomic", "restartable"].contains r.mode &&
    ["ACTIVE", "SUCCESS"].contains r.status && r.attempt.all (0 < ·) &&
    (!r.isActive || r.mode == "restartable" && r.attempt.isSome && r.finishedAt.isNone) &&
    (!r.isSuccess || r.finishedAt.isSome)

def Db.admitsRow (d : Db) (r : HistoryRow) : Bool :=
  rowChecks r && d.history.all (fun x =>
    x.migrationId != r.migrationId && x.seq != r.seq && !(x.isActive && r.isActive))

def isActiveRow (id : String) (r : HistoryRow) : Bool := r.migrationId == id && r.isActive

def admitAttempt (fingerprint : String) (language : Language) (runner : RunnerInfo) (now : Timestamp)
    (r : HistoryRow) : HistoryRow :=
  { r with
    attempt := r.attempt.map (· + 1)
    fingerprint
    language := language.value
    lastAttemptAt := some now
    runner }

def completeRow (toolVersion : String) (now : Timestamp) (r : HistoryRow) : HistoryRow :=
  { r with
    status := Status.success.value
    finishedAt := some now
    runner := { r.runner with toolVersion } }

/-- `UPDATE m8_history … WHERE migration_id = id AND status = 'ACTIVE'`, with the
number of rows it changed. -/
def Db.updateActive (d : Db) (id : String) (f : HistoryRow → HistoryRow) : Nat × Db :=
  ((d.history.filter (isActiveRow id)).length,
    { d with history := d.history.map fun r => if isActiveRow id r then f r else r })

def Db.admitsProgress (d : Db) (p : ProgressRow) : Bool :=
  d.history.any (fun r => r.migrationId == p.migrationId) && (1 ≤ p.progKey.length) &&
    (p.progKey.length ≤ progressKeyMaxChars) && (1 ≤ p.progValue.length)

def sameKey (p q : ProgressRow) : Bool := p.migrationId == q.migrationId && p.progKey == q.progKey

def upsert (rows : List ProgressRow) (p : ProgressRow) : List ProgressRow :=
  if rows.any (sameKey p) then rows.map fun q => if sameKey p q then p else q else rows ++ [p]

def Db.progressValue (d : Db) (id key : String) : Option String :=
  (d.progress.find? fun p => p.migrationId == id && p.progKey == key).map (·.progValue)

def Db.deleteProgress (d : Db) (id : String) : Db :=
  { d with progress := d.progress.filter fun p => p.migrationId != id }

def progressBefore (p q : ProgressRow) : Prop :=
  p.migrationId < q.migrationId ∨ p.migrationId = q.migrationId ∧ p.progKey ≤ q.progKey

instance : DecidableRel progressBefore := fun p q => by
  unfold progressBefore
  infer_instance

/-- An open transaction. `xid` is what the server gives as its identity, once it
has assigned one; `engine` records who opened it. -/
structure Txn where
  working : Db
  xid : Option Nat := none
  aborted : Bool := false
  engine : Bool := true
  deriving DecidableEq, Repr

/-- The server side of a run, and the log it writes. `performed`, `broken` and
`journal` only record: every write carried out for migration code, the batches in
which one of its statements committed the transaction underneath the engine, and
the log lines of the current run. -/
structure Session where
  db : Db
  txn : Option Txn := none
  nextXid : Nat := 0
  invocation : Nat := 0
  performed : List Work := []
  broken : List (Nat × Option Nat) := []
  journal : List (String × Option String) := []
  deriving DecidableEq, Repr

def Session.note (event : String) (migration : Option String) (s : Session) : Session :=
  { s with journal := s.journal ++ [(event, migration)] }

def Session.visible (s : Session) : Db :=
  match s.txn with
  | some t => t.working
  | none => s.db

def Session.aborted (s : Session) : Bool :=
  match s.txn with
  | some t => t.aborted
  | none => false

/-- A write goes to the open transaction. Without one it is durable at once,
except on Oracle, where it opens a transaction. -/
def Session.put (adapter : Adapter) (engine : Bool) (s : Session) (d : Db) : Session :=
  match s.txn with
  | some t => { s with txn := some { t with working := d } }
  | none =>
      match adapter with
      | .oracle => { s with
          txn := some { working := d, xid := some s.nextXid, engine }
          nextXid := s.nextXid + 1 }
      | _ => { s with db := d }

def Session.endTxn (s : Session) : Session := { s with txn := none }

/-- What the next run finds once the server session of this one has ended. -/
def Session.afresh (s : Session) : Session := { s with txn := none, journal := [] }

/-- A commit of an aborted transaction rolls it back. -/
def Session.commitTxn (s : Session) : Session :=
  match s.txn with
  | none => s
  | some t => if t.aborted then s.endTxn else { s with db := t.working, txn := none }

inductive Value where
  | none
  | int (n : Int)
  | text (s : String)
  | rows (rows : List (List String))
  deriving DecidableEq, Repr

/-- What a migration statement does on the server, one effect at a time. -/
inductive Step where
  | write (tag : String)
  | commit (chain : Bool)
  | rollback
  deriving DecidableEq, Repr

def Step.isWrite : Step → Bool
  | .write _ => true
  | _ => false

inductive Fault where
  | answered
  | driver (e : DriverError)
  | plain (name : String)
  | interrupted
  deriving DecidableEq, Repr

def Fault.exc : Fault → Option Exc
  | .answered => none
  | .driver e => some (.driver e)
  | .plain name => some (.plain name)
  | .interrupted => some .interrupt

def Fault.rejects (adapter : Adapter) (commitCapable : Bool) : Fault → Bool
  | .driver e => classifyCallFailure adapter (.driver e) commitCapable = .serverRejection
  | _ => false

structure ValidityResult where
  failures : List String := []
  warnings : List String := []
  deriving DecidableEq, Repr

/-- How one call goes. A definite rejection has no effect; of any other failure
`applied` says whether the server carried the call out. `spoils` says whether a
failed call takes the transaction with it, and `refusal` is what setup finds wrong. -/
structure Outcome where
  fault : Fault := .answered
  applied : Bool := false
  spoils : Bool := false
  steps : List Step := []
  value : Value := .none
  validity : ValidityResult := {}
  now : Timestamp := 0
  refusal : Option Refusal := none
  deriving DecidableEq, Repr

/-- SQLite rolls the whole transaction back, PostgreSQL keeps it open and
aborted; a failed Oracle statement leaves the transaction as it was. -/
def Session.fail (adapter : Adapter) (o : Outcome) (s : Session) : Session :=
  match s.txn with
  | none => s
  | some t =>
      match adapter with
      | .sqlite => if o.spoils then s.endTxn else s
      | .postgres => if o.spoils then { s with txn := some { t with aborted := true } } else s
      | .oracle => s

/-- An aborted transaction refuses every statement but its own end. -/
def carryOut {α : Type} (run : Session → Except DriverError α × Session) (s : Session) :
    Except DriverError α × Session :=
  if s.aborted then (.error inFailedSqlTransaction, s) else run s

/-- One statement. `kept` is what a rejected one leaves behind all the same: the
work that its own commits have already settled. -/
def submit {α : Type} (adapter : Adapter) (commitCapable : Bool) (o : Outcome)
    (run : Session → Except DriverError α × Session) (kept : Session → Session) (s : Session) :
    Except Exc α × Session :=
  match o.fault.exc with
  | none =>
      match carryOut run s with
      | (.ok a, s') => (.ok a, s')
      | (.error e, s') => (.error (.driver e), s'.fail adapter o)
  | some e =>
      (.error e,
        if o.fault.rejects adapter commitCapable then (kept s).fail adapter o
        else if o.applied then (carryOut run s).2
        else s.fail adapter o)

def read {α : Type} (f : Db → α) (s : Session) : Except DriverError α × Session := (.ok (f s.visible), s)

def Db.isTable (d : Db) (name : ObjectName) : Bool :=
  match d.layout.holder name with
  | .supported => true
  | .altered found => !found.noTable
  | .vacant | .foreign _ | .trigger => false

def selectRows {α : Type} (adapter : Adapter) (tables : List ObjectName) (f : Db → α) (s : Session) :
    Except DriverError α × Session :=
  if tables.all s.visible.isTable then read f s else (.error (notATable adapter), s)

def write {α : Type} (adapter : Adapter) (engine : Bool) (f : Db → Except DriverError (α × Db)) (s : Session) :
    Except DriverError α × Session :=
  match f s.visible with
  | .error e => (.error e, s)
  | .ok (a, d) => (.ok a, s.put adapter engine d)

/-- Whose statement is running, and in which batch. -/
structure Scope where
  owner : String
  block : Option Nat
  deriving DecidableEq, Repr

def Session.work (s : Session) (scope : Scope) (item : Item) : Work :=
  ⟨scope.owner, s.invocation, scope.block, item⟩

def Session.record (adapter : Adapter) (engine : Bool) (s : Session) (w : Work) (d : Db) : Session :=
  { s.put adapter engine { d with data := d.data ++ [w] } with performed := s.performed ++ [w] }

/-- SQLite admits no statement that ends a transaction. -/
def Session.step (adapter : Adapter) (scope : Scope) (s : Session) : Step → Session
  | .write tag => s.record adapter false (s.work scope (.statement tag)) s.visible
  | .commit chain =>
      match adapter, s.txn with
      | .sqlite, _ | _, none => s
      | _, some t =>
          if t.aborted then s.endTxn
          else { s with
            db := t.working
            txn := if chain && adapter == .postgres then some { working := t.working, engine := false } else none
            broken := s.broken ++ [(s.invocation, scope.block)] }
  | .rollback =>
      match adapter with
      | .sqlite => s
      | _ => s.endTxn

def Session.steps (adapter : Adapter) (scope : Scope) (steps : List Step) (s : Session) : Session :=
  steps.foldl (Session.step adapter scope) s

/-- A failed statement is undone back to the last point it settled itself. -/
def settledSteps (steps : List Step) : List Step := (steps.reverse.dropWhile Step.isWrite).reverse

end Migr8.Database
