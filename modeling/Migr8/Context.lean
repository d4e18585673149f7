import Migr8.Adapters

namespace Migr8.Context

open Errors Model Latch Driver Database World Adapters Lib.Process

variable {α : Type}

inductive TextError where
  | refused (r : TextRefusal)
  | failed (name : String)
  deriving DecidableEq, Repr

def TextError.exc : TextError → Exc
  | .refused r => .migr8 r.error
  | .failed name => .plain name

def refuse : Option TextError → Run Unit
  | some e => Proc.throw e.exc
  | none => pure ()

def liftText : Except TextError α → Run α
  | .ok a => pure a
  | .error e => Proc.throw e.exc

/-- The decisions about source text: the scanner and the admission rules of the
adapter, and the unit's own files. They ask nothing of the database. -/
structure Texts where
  readSqlEntry : CapturedUnit → (phase : String) → Except TextError String
  admitStatement : String → Mode → (inBatch : Bool) → Option TextError
  admitDdl : String → Option TextError
  isProcedural : String → Bool
  isConcurrent : String → Bool
  readFile : CapturedUnit → (path : String) → Except TextError String
  compilePython : CapturedUnit → Except TextError Unit
  admitRequired : List RequiredObject → Option TextRefusal

structure Env where
  config : Config
  texts : Texts
  unit : CapturedUnit

def Env.adapter (env : Env) : Adapter := env.config.adapter

def batchViolationOutcome : String := "The batch was not committed and the migration remains ACTIVE."

def batchRolledBack (migrationId before : String) : Migr8Error where
  kind := .migrationFailed
  message := "the database rolled the batch transaction back before " ++ before ++
    "; the batch is not committed"
  phase := some "restartable_batch"
  migrationId := some migrationId

def transactionViolation (migrationId detail outcome phase : String) : Migr8Error where
  kind := .contractViolation
  message := "migration " ++ pyRepr migrationId ++ " broke its transaction: " ++ detail ++ ". " ++
    outcome ++ " Durable effects of the migration may require manual remediation."
  phase := some phase
  migrationId := some migrationId

def failBatch (e : Migr8Error) (h : e.kind = .migrationFailed) : Run α := do
  modify fun l => { l with latch := l.latch.latchFailure e h }
  raise e

def violate (e : Migr8Error) (h : e.kind = .contractViolation) : Run α := do
  modify fun l => { l with latch := l.latch.latchViolation e h }
  raise e

def identityChange (scope : String) (established : Identity) (current : Option Identity) : String :=
  "the " ++ scope ++ " transaction was established as " ++ pyRepr established.text ++ " but " ++
    match current with
    | none => "no transaction is open"
    | some i => "the identity is now " ++ pyRepr i.text

def checkTransactionIdentity (adapter : Adapter) (established : Option Identity)
    (migrationId scope outcome : String) : Run Unit :=
  match established with
  | none => pure ()
  | some i => do
      let current ← readTransactionIdentity adapter
      if current = some i then pure ()
      else violate (transactionViolation migrationId (identityChange scope i current) outcome
        "transaction_identity") rfl

section Facade

variable (env : Env)

def admitCall (operation : String) : Run Unit := do
  checkLatch
  if ← get (·.facade.inBatch) then
    match ← batchTransactionState env.adapter with
    | .open => pure ()
    | .rolledBack => failBatch (batchRolledBack env.unit.id operation) rfl
    | .ended => violate (transactionViolation env.unit.id
        ("the batch transaction ended before " ++ operation ++ " inside the batch")
        batchViolationOutcome "restartable_batch") rfl
  else pure ()

def prepare (sql operation : String) : Run Unit := do
  admitCall env operation
  let inBatch ← get (·.facade.inBatch)
  refuse (env.texts.admitStatement sql env.unit.mode inBatch)

/-- A call outside a batch in restartable mode may be a block that commits. -/
def Env.commitCapable (f : Facade) : Bool := env.unit.mode = .restartable && !f.inBatch

def runStatement (verb : Verb) (sql operation : String) : Run Value := do
  let f ← get (·.facade)
  guarded env.adapter
    { operation
      phase := "migration_execution"
      migrationId := some env.unit.id
      commitCapable := env.commitCapable f }
    (perform (.statement ⟨env.unit.id, f.block⟩ verb sql (env.commitCapable f)))

def execute (sql : String) : Run Value := do
  prepare env sql "ctx.execute()"
  runStatement env .execute sql "execute"

def executemany (sql : String) (sets : Nat) : Run Value := do
  prepare env sql "ctx.executemany()"
  if sets = 0 then return .int 0 else runStatement env .executemany sql "executemany"

def query (sql : String) : Run Value := do
  prepare env sql "ctx.query()"
  runStatement env .query sql "query"

def sqlFile (path : String) : Run Value := do
  admitCall env "ctx.sql()"
  return .text (← liftText (env.texts.readFile env.unit path))

def progressKeyError (key : String) : Option Migr8Error :=
  if key = "" then some (usage "progress keys must be non-empty strings")
  else if progressKeyMaxChars < key.length then
    some (usage ("progress key exceeds " ++ toString progressKeyMaxChars ++ " characters: " ++
      toString key.length))
  else if !key.toList.all (fun ch => ch.toNat < 128) then
    some (usage ("progress key " ++ pyRepr key ++ " must be ASCII"))
  else none

def progressValueError (value : String) : Option Migr8Error :=
  if value = "" then
    some (usage ("progress values must be non-empty strings; the empty string is rejected so " ++
      "Oracle's empty-string/NULL handling cannot change this API"))
  else if progressValueMaxBytes < value.utf8ByteSize then
    some (usage ("progress value exceeds " ++ toString progressValueMaxBytes ++ " UTF-8 bytes: " ++
      toString value.utf8ByteSize))
  else none

def raiseIf : Option Migr8Error → Run Unit
  | some e => raise e
  | none => pure ()

def getProgress (key : String) : Run Value := do
  admitCall env "ctx.progress.get()"
  raiseIf (progressKeyError key)
  let value ← guarded env.adapter
    { operation := "progress_get", phase := "migration_execution", migrationId := some env.unit.id }
    (progressGet env.config env.unit.id key)
  return match value with
    | some text => .text text
    | none => .none

def setProgress (key value : String) : Run Value := do
  admitCall env "ctx.progress.set()"
  raiseIf (progressKeyError key)
  raiseIf (progressValueError value)
  let f ← get (·.facade)
  if f.inBatch then do
    guarded env.adapter
      { operation := "progress_set", phase := "migration_execution", migrationId := some env.unit.id }
      (progressSet env.config ⟨env.unit.id, f.block⟩ key value)
    return .none
  else raise (usage ("ctx.progress.set() is only available inside a ctx.transaction() block, so a " ++
    "checkpoint always commits with the batch it describes") (some env.unit.id))

end Facade

section Batches

variable (env : Env)

/-- A rollback that fails is only logged. -/
def rollbackBatch : Run Unit :=
  (rollback env.adapter).tryCatch fun e => if e.isException then pure () else Proc.throw e

def commitRejected (e : Exc) : Migr8Error where
  kind := .migrationFailed
  message := "batch commit was rejected by the server: " ++ describeException env.adapter e
  phase := some "restartable_batch"
  migrationId := some env.unit.id

def commitBatch : Run Unit :=
  (durableCommit env.adapter .restartableBatch (some env.unit.id)).tryCatch fun e =>
    if e.kind? = some .unknownOutcome then Proc.throw e
    else if e.isException then raise (commitRejected env e)
    else Proc.throw e

def batchUnchecked (e : Exc) : Migr8Error where
  kind := .migrationFailed
  message := "batch transaction could not be checked before commit and was rolled back: " ++
    describeException env.adapter e
  phase := some "restartable_batch"
  migrationId := some env.unit.id

/-- The check at the end of a batch, on the clean and on the failed path. It
answers whether the batch is already dealt with. -/
def inspectBatch (established : Option Identity) (failed : Bool) : Run Bool := do
  match ← batchTransactionState env.adapter with
  | .rolledBack => do
      rollbackBatch env
      if failed then return true
      else failBatch (batchRolledBack env.unit.id "the batch ended") rfl
  | .ended => violate (transactionViolation env.unit.id
      "the batch transaction ended before the batch did" batchViolationOutcome
      "restartable_batch") rfl
  | .open => do
      checkTransactionIdentity env.adapter established env.unit.id "batch" batchViolationOutcome
      return false

/-- A violation or an unknown outcome has been latched by the check itself. What
remains is a definite rejection of the identity read. -/
def batchCheckFailed (failed : Bool) (e : Exc) : Run Bool :=
  match e.kind? with
  | some .contractViolation | some .unknownOutcome => pure false
  | some .migrationFailed => Proc.throw e
  | _ =>
      if e.isException then do
        rollbackBatch env
        if failed then return true else failBatch (batchUnchecked env e) rfl
      else Proc.throw e

def checkBatch (established : Option Identity) (failed : Bool) : Run Bool :=
  (inspectBatch env established failed).tryCatch (batchCheckFailed env failed)

def settleBatch (failed : Bool) : Run Unit := do
  let latch ← get (·.latch)
  if latch.latched then do
    onlyIf (!latch.unknown) (rollbackBatch env)
    if failed ∧ latch.state = .batchFailed then pure () else checkLatch
  else if failed then rollbackBatch env
  else commitBatch env

def finishBatch (established : Option Identity) (failed : Bool) : Run Unit := do
  if ← get (·.latch.latched) then settleBatch env failed
  else do
    let done ← checkBatch env established failed
    onlyIf (!done) (settleBatch env failed)

/-- `ctx.transaction()` hands out a batch object; its number stands for it. -/
def transaction : Run Value := do
  checkLatch
  let n ← get (·.facade.batches.length)
  modify fun l => { l with facade := { l.facade with batches := l.facade.batches ++ [none] } }
  return .int n

def openBatch (batch : Nat) (identity : Identity) : Run Unit :=
  modify fun l => { l with facade :=
    { inBatch := true
      openBatch := some batch
      batches := l.facade.batches.set batch (some identity)
      entered := l.facade.entered + 1 } }

/-- `__enter__`. An interruption while the identity is established is not an
`Exception`, and leaves without the rollback. -/
def enterBatch (batch : Nat) : Run Unit := do
  checkLatch
  if ← get (·.facade.inBatch) then
    raise (usage "ctx.transaction() blocks do not nest" (some env.unit.id))
  else if ← hasOpenTransaction env.adapter then
    raise (usage ("a transaction is already open when entering ctx.transaction(); the batch must " ++
      "own its transaction") (some env.unit.id))
  else do
    begin env.adapter
    let identity ← (establishTransactionIdentity env.adapter).tryCatch fun e => do
      onlyIf (e.kind? ≠ some .unknownOutcome && e.isException) (rollbackBatch env)
      Proc.throw e
    openBatch batch identity

def closeBatch : Run Unit :=
  modify fun l => { l with facade := { l.facade with inBatch := false, openBatch := none } }

def exitBatch (established : Option Identity) (failed : Bool) : Run Unit := do
  closeBatch
  finishBatch env established failed

def ddl (sql : String) : Run Unit := do
  checkLatch
  if ← get (·.facade.inBatch) then
    raise (usage "ctx.ddl() is not available inside a ctx.transaction() block" (some env.unit.id))
  else do
    refuse (env.texts.admitDdl sql)
    if ← hasOpenTransaction env.adapter then
      raise (usage ("ctx.ddl() requires no open transaction: the engine will not use a pre-DDL " ++
        "implicit commit to flush unrelated pending work") (some env.unit.id))
    else
      guarded env.adapter
        { operation := "DDL execution"
          phase := "restartable_ddl"
          migrationId := some env.unit.id
          commitCapable := true }
        (executeDdl env.adapter ⟨env.unit.id, none⟩ sql (env.texts.isConcurrent sql))

end Batches

section Programs

variable (env : Env)

def restartableOnly (m : Run Unit) : Run Value :=
  if env.unit.mode = .restartable then do
    m
    return .none
  else Proc.throw (.plain "builtins.AttributeError")

/-- A method of a batch object, given the identity the object holds. -/
def onBatch (batch : Nat) (m : Option Identity → Run Unit) : Run Unit := do
  match ← get (·.facade.batches[batch]?) with
  | some identity => m identity
  | none => Proc.throw (.plain "builtins.NameError")

def answer : Call → Run Value
  | .execute sql => execute env sql
  | .executemany sql sets => executemany env sql sets
  | .query sql => query env sql
  | .sql path => sqlFile env path
  | .log _ => do
      perform (.log "migration_log" (some env.unit.id))
      return .none
  | .progressGet key =>
      if env.unit.mode = .restartable then getProgress env key
      else Proc.throw (.plain "builtins.AttributeError")
  | .progressSet key value =>
      if env.unit.mode = .restartable then setProgress env key value
      else Proc.throw (.plain "builtins.AttributeError")
  | .transaction =>
      if env.unit.mode = .restartable then transaction
      else Proc.throw (.plain "builtins.AttributeError")
  | .enter batch => restartableOnly env (onBatch batch fun _ => enterBatch env batch)
  | .exit batch failed => restartableOnly env (onBatch batch fun identity => exitBatch env identity failed)
  | .ddl sql => restartableOnly env (ddl env sql)

inductive Returned where
  | nothing
  | deferred (kind : String)
  | other (typeName : String)
  deriving DecidableEq, Repr

/-- Migration code: it makes facade calls, sees what each returns or raises, and
in the end returns or raises something itself. -/
inductive Program where
  | ret (value : Returned)
  | raise (e : Exc)
  | call (c : Call) (next : Except Exc Value → Program)

def runProgram : Program → Run Returned
  | .ret value => pure value
  | .raise e => Proc.throw e
  | .call c next => do
      let r ← (answer env c).attempt
      perform (.back c r)
      runProgram (next r)

end Programs

end Migr8.Context
