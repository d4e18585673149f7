import Migr8.Errors

namespace Migr8.Model

def layoutVersion : Int := 1

def historyTable : String := "m8_history"

def progressTable : String := "m8_progress"

def metaTable : String := "m8_meta"

def activeIndex : String := "m8_history_one_active"

def progressKeyMaxChars : Nat := 128

def progressValueMaxBytes : Nat := 4000

inductive Language where
  | sql | python
  deriving DecidableEq, Repr

def Language.value : Language → String
  | .sql => "sql"
  | .python => "python"

inductive Mode where
  | atomic | restartable
  deriving DecidableEq, Repr

def Mode.value : Mode → String
  | .atomic => "atomic"
  | .restartable => "restartable"

inductive Status where
  | active | success
  deriving DecidableEq, Repr

def Status.value : Status → String
  | .active => "ACTIVE"
  | .success => "SUCCESS"

/-- Latest-attempt diagnostics stored with a history transition. -/
structure RunnerInfo where
  host : Option String := none
  user : Option String := none
  pid : Option Nat := none
  dbSession : Option String := none
  toolVersion : String := "unknown"
  deriving DecidableEq, Repr

abbrev Timestamp := Nat

/-- One `m8_history` row as read from the database: the texts are whatever the
columns hold. -/
structure HistoryRow where
  seq : Int
  migrationId : String
  fingerprint : String
  firstFingerprint : String
  language : String
  mode : String
  status : String
  attempt : Option Int
  startedAt : Option Timestamp
  lastAttemptAt : Option Timestamp
  finishedAt : Option Timestamp
  runner : RunnerInfo := {}
  deriving DecidableEq, Repr

def HistoryRow.isSuccess (r : HistoryRow) : Bool := r.status == Status.success.value

def HistoryRow.isActive (r : HistoryRow) : Bool := r.status == Status.active.value

structure ProgressRow where
  migrationId : String
  progKey : String
  progValue : String
  updatedAt : Option Timestamp := none
  deriving DecidableEq, Repr

structure MetaRow where
  layoutVersion : Int
  adapter : String
  lockProvider : String
  lockBinding : String
  targetNamespace : String
  initializedAt : Option Timestamp := none
  deriving DecidableEq, Repr

inductive MetadataState where
  | absent | incompleteCompatible | complete | damaged
  deriving DecidableEq, Repr

def MetadataState.value : MetadataState → String
  | .absent => "absent"
  | .incompleteCompatible => "incomplete_compatible"
  | .complete => "complete"
  | .damaged => "damaged"

structure Snapshot where
  history : List HistoryRow
  progress : List ProgressRow
  metaRow : Option MetaRow := none
  deriving DecidableEq, Repr

def fingerprintPrefix : String := "fp1:"

def isHexDigit (c : Char) : Bool := ('0' ≤ c && c ≤ '9') || ('a' ≤ c && c ≤ 'f')

/-- `^fp1:[0-9a-f]{64}$` against the whole text. -/
def isSupportedFingerprint (value : String) : Bool :=
  fingerprintPrefix.toList.isPrefixOf value.toList &&
    ((value.toList.drop 4).length == 64 && (value.toList.drop 4).all isHexDigit)

structure RequiredObject where
  type : String
  name : String
  deriving DecidableEq, Repr

structure CapturedUnit where
  id : String
  position : Nat
  language : Language
  mode : Mode
  entry : String := ""
  required : List RequiredObject := []
  fingerprint : String
  relpaths : List String := []
  deriving DecidableEq, Repr

/-- A capture of the whole manifest. The manifest reader numbers the entries and
refuses a repeated id, and every fingerprint is computed from the unit's files. -/
structure Capture where
  units : List CapturedUnit
  positions : units.map (·.position) = List.range' 1 units.length
  distinct : (units.map (·.id)).Nodup
  fingerprinted : ∀ u ∈ units, isSupportedFingerprint u.fingerprint = true

def Capture.atPosition (c : Capture) (position : Int) : Option CapturedUnit :=
  if 1 ≤ position ∧ position ≤ c.units.length then c.units[(position - 1).toNat]? else none

structure Plan where
  capture : Capture
  snapshot : Snapshot
  successCount : Nat
  active : Option HistoryRow
  pending : List CapturedUnit
  activeFingerprintChanged : Bool

end Migr8.Model
