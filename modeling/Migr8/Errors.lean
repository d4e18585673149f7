import Mathlib.Data.List.Basic

namespace Migr8.Errors

inductive Exit where
  | ok | usage | validation | migrationFailed | unknownOutcome | lockNotAcquired
  | notInitialized | metadataDamaged | contractViolation
  deriving DecidableEq, Repr

def Exit.code : Exit → Nat
  | .ok => 0
  | .usage => 1
  | .validation => 2
  | .migrationFailed => 3
  | .unknownOutcome => 4
  | .lockNotAcquired => 5
  | .notInitialized => 6
  | .metadataDamaged => 7
  | .contractViolation => 8

/-- The error classes of the tool, subclasses included. -/
inductive ErrorKind where
  | usage | config | connectionSetup | unsupportedCapability
  | validation | manifest | unit | sqlSyntax | pythonSyntax | recoveryRequired
  | migrationFailed | unknownOutcome | lockNotAcquired | notInitialized
  | metadataDamaged | contractViolation
  deriving DecidableEq, Repr

def ErrorKind.exitCode : ErrorKind → Exit
  | .usage | .config | .connectionSetup | .unsupportedCapability => .usage
  | .validation | .manifest | .unit | .sqlSyntax | .pythonSyntax | .recoveryRequired => .validation
  | .migrationFailed => .migrationFailed
  | .unknownOutcome => .unknownOutcome
  | .lockNotAcquired => .lockNotAcquired
  | .notInitialized => .notInitialized
  | .metadataDamaged => .metadataDamaged
  | .contractViolation => .contractViolation

/-- `operation` is what an unknown-outcome error carries on top of the others. -/
structure Migr8Error where
  kind : ErrorKind
  message : String
  phase : Option String := none
  migrationId : Option String := none
  operation : Option String := none
  deriving DecidableEq, Repr

def Migr8Error.exitCode (e : Migr8Error) : Exit := e.kind.exitCode

def nonempty (label : String) : Option String → List String
  | some "" | none => []
  | some text => [label ++ "=" ++ text]

def Migr8Error.report (e : Migr8Error) : String :=
  let parts := nonempty "phase" e.phase ++ nonempty "migration" e.migrationId
  let suffix := if parts.isEmpty then "" else " [" ++ String.intercalate ", " parts ++ "]"
  match e.kind, e.operation with
  | .unknownOutcome, some operation => "unknown outcome for " ++ operation ++ ": " ++ e.message ++ suffix
  | _, _ => e.message ++ suffix

/-- What setup and the checks of the source text may raise: never an outcome of
the run, so none of them is an unknown outcome, a violation or a failed migration. -/
inductive RefusalKind where
  | usage | config | connectionSetup | unsupportedCapability | unit | sqlSyntax | pythonSyntax
  | lockNotAcquired | metadataDamaged
  deriving DecidableEq, Repr

def RefusalKind.errorKind : RefusalKind → ErrorKind
  | .usage => .usage
  | .config => .config
  | .connectionSetup => .connectionSetup
  | .unsupportedCapability => .unsupportedCapability
  | .unit => .unit
  | .sqlSyntax => .sqlSyntax
  | .pythonSyntax => .pythonSyntax
  | .lockNotAcquired => .lockNotAcquired
  | .metadataDamaged => .metadataDamaged

structure Refusal where
  kind : RefusalKind
  message : String
  phase : Option String := none
  migrationId : Option String := none
  deriving DecidableEq, Repr

def Refusal.error (r : Refusal) : Migr8Error :=
  { kind := r.kind.errorKind, message := r.message, phase := r.phase, migrationId := r.migrationId }

def textKinds : List RefusalKind := [.usage, .config, .unsupportedCapability, .unit, .sqlSyntax, .pythonSyntax]

structure TextRefusal extends Refusal where
  ofText : kind ∈ textKinds
  deriving DecidableEq, Repr

/-- What a driver says about a failed call, as far as the classifiers read it. -/
inductive Detail where
  | sqlite (errorname : Option String)
  | postgres (sqlstate : Option String) (clientSide : Bool)
  | oracle (code : Nat) (fullCode : Option String) (sessionDead : Bool)
  deriving DecidableEq, Repr

structure DriverError where
  name : String
  detail : Detail
  deriving DecidableEq, Repr

/-- A raised Python object. The first four are instances of `Exception`, the
last two are not: `interrupt` is `KeyboardInterrupt`. -/
inductive Exc where
  | migr8 (e : Migr8Error)
  | driver (e : DriverError)
  | commitOutcomeUnknown (code : Option String)
  | plain (name : String)
  | interrupt
  | base (name : String)
  deriving DecidableEq, Repr

def Exc.isException : Exc → Bool
  | .migr8 _ | .driver _ | .commitOutcomeUnknown _ | .plain _ => true
  | .interrupt | .base _ => false

def Exc.kind? : Exc → Option ErrorKind
  | .migr8 e => some e.kind
  | _ => none

/-- Python's `repr` of a string without unprintable characters. -/
def pyRepr (s : String) : String :=
  let quote := if s.toList.contains '\'' && !s.toList.contains '"' then '"' else '\''
  let escape (c : Char) : List Char :=
    if c = quote || c = '\\' then ['\\', c]
    else if c = '\n' then ['\\', 'n']
    else if c = '\r' then ['\\', 'r']
    else if c = '\t' then ['\\', 't']
    else [c]
  String.ofList (quote :: s.toList.flatMap escape ++ [quote])

end Migr8.Errors
