import Migr8.Errors

namespace Migr8.Driver

open Errors

inductive Adapter where
  | sqlite | postgres | oracle
  deriving DecidableEq, Repr

def Adapter.name : Adapter → String
  | .sqlite => "sqlite"
  | .postgres => "postgres"
  | .oracle => "oracle"

inductive OutcomeClass where
  | serverRejection | communicationFailure
  deriving DecidableEq, Repr

def startsWith (text lead : String) : Bool := lead.toList.isPrefixOf text.toList

/-- Result codes whose meaning at a commit is settled: the transaction is still
open and nothing was made durable. -/
def settledCommitCodes : List String :=
  ["SQLITE_BUSY", "SQLITE_LOCKED", "SQLITE_CONSTRAINT", "SQLITE_READONLY", "SQLITE_MISUSE",
    "SQLITE_AUTH", "SQLITE_PERM"]

def settlesTheTransaction : Option String → Bool
  | none => false
  | some code => settledCommitCodes.any (startsWith code)

def indefiniteSqlstateClasses : List String := ["08"]

def commitIndefiniteSqlstateClasses : List String := ["57", "58", "XX"]

def definiteSqlstates : List String := ["57014"]

def indefiniteSqlstates : List String := ["40003"]

def classifySqlstate (code : String) (commitCapable : Bool) : OutcomeClass :=
  if definiteSqlstates.contains code then .serverRejection
  else if indefiniteSqlstateClasses.any (startsWith code) || indefiniteSqlstates.contains code then
    .communicationFailure
  else if commitCapable && commitIndefiniteSqlstateClasses.any (startsWith code) then
    .communicationFailure
  else .serverRejection

def transportOraCodes : List Nat :=
  [28, 1012, 1089, 1092, 3106, 3113, 3114, 3135, 12152, 12537, 12571, 22, 31, 45, 378, 600, 602,
    603, 609, 1041, 1043, 2396, 3122, 12153, 12547, 12570, 12583, 27146, 28511, 56600]

def sessionDeadDpyCode : String := "DPY-4011"

def clientSideDpyCodes : List String :=
  ["DPY-2002", "DPY-2005", "DPY-2006", "DPY-2008", "DPY-2009", "DPY-2010", "DPY-3002", "DPY-3003",
    "DPY-3004", "DPY-3005", "DPY-4008", "DPY-4009", "DPY-4010"]

/-- Each adapter reads the errors of its own driver; everything else, another
driver's error included, leaves the outcome unknown. -/
def classifyDetail : Adapter → Detail → Bool → OutcomeClass
  | .sqlite, .sqlite _, _ => .serverRejection
  | .postgres, .postgres (some code) clientSide, commitCapable =>
      if code ≠ "" then classifySqlstate code commitCapable
      else if clientSide then .serverRejection else .communicationFailure
  | .postgres, .postgres none clientSide, _ =>
      if clientSide then .serverRejection else .communicationFailure
  | .oracle, .oracle code fullCode sessionDead, _ =>
      if fullCode.getD "" = sessionDeadDpyCode || sessionDead then .communicationFailure
      else if code ≠ 0 then
        if transportOraCodes.contains code then .communicationFailure else .serverRejection
      else if clientSideDpyCodes.contains (fullCode.getD "") then .serverRejection
      else .communicationFailure
  | _, _, _ => .communicationFailure

def classifyCallFailure (adapter : Adapter) (e : Exc) (commitCapable : Bool) : OutcomeClass :=
  match e with
  | .driver d => classifyDetail adapter d.detail commitCapable
  | _ => .communicationFailure

def classifyException (adapter : Adapter) (e : Exc) : OutcomeClass := classifyCallFailure adapter e true

def isDriverError : Adapter → Exc → Bool
  | .sqlite, .driver ⟨_, .sqlite _⟩ => true
  | .postgres, .driver ⟨_, .postgres _ _⟩ => true
  | .oracle, .driver ⟨_, .oracle _ _ _⟩ => true
  | _, _ => false

def errorCode : Adapter → Exc → Option String
  | .sqlite, .commitOutcomeUnknown code => code
  | .sqlite, .driver ⟨_, .sqlite name⟩ => name
  | .postgres, .driver ⟨_, .postgres (some code) _⟩ => if code = "" then none else some ("SQLSTATE " ++ code)
  | .oracle, .driver ⟨_, .oracle _ (some code) _⟩ => if code = "" then none else some code
  | _, _ => none

def typeName : Exc → String
  | .migr8 _ => "migr8.errors"
  | .driver e => e.name
  | .commitOutcomeUnknown _ => "migr8.adapters.sqlite.CommitOutcomeUnknown"
  | .plain name => name
  | .interrupt => "builtins.KeyboardInterrupt"
  | .base name => name

def describeException (adapter : Adapter) (e : Exc) : String :=
  match errorCode adapter e with
  | some code => typeName e ++ " [" ++ code ++ "]"
  | none => typeName e

def constraintError : Adapter → DriverError
  | .sqlite => ⟨"sqlite3.IntegrityError", .sqlite (some "SQLITE_CONSTRAINT")⟩
  | .postgres => ⟨"psycopg.errors.IntegrityError", .postgres (some "23000") false⟩
  | .oracle => ⟨"oracledb.exceptions.IntegrityError", .oracle 1 (some "ORA-00001") false⟩

def notATable : Adapter → DriverError
  | .sqlite => ⟨"sqlite3.OperationalError", .sqlite (some "SQLITE_ERROR")⟩
  | .postgres => ⟨"psycopg.errors.WrongObjectType", .postgres (some "42809") false⟩
  | .oracle => ⟨"oracledb.exceptions.DatabaseError", .oracle 942 (some "ORA-00942") false⟩

def inFailedSqlTransaction : DriverError :=
  ⟨"psycopg.errors.InFailedSqlTransaction", .postgres (some "25P02") false⟩

def transactionStateError : DriverError :=
  ⟨"sqlite3.OperationalError", .sqlite (some "SQLITE_ERROR")⟩

theorem classify_notATable (adapter : Adapter) (commitCapable : Bool) :
    classifyCallFailure adapter (.driver (notATable adapter)) commitCapable = .serverRejection := by
  cases adapter <;> cases commitCapable <;> decide

end Migr8.Driver
