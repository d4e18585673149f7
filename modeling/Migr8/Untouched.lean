import Migr8.Rules
import Migr8.Engine

namespace Migr8.Untouched

open Errors Model Latch Driver Database World Adapters Metadata Context Engine Rules Lib.Process
open Lib.Interaction (echo)

variable {α β V W : Type}

/-- A view of the process stays as it is, and every request shows it so. -/
def Shows (view : Local → V) (m : Run α) : Prop := ∀ l, wp (echo fun (_ : Request) (_ : Unit) => ()) (fun _ _ _ => True)
  (fun q _ => view q.state = view l) m (fun _ l' _ => view l' = view l) l ()

def Spares (m : Run α) : Prop := ∀ l, wp (echo fun (_ : Request) (_ : Unit) => ()) (fun _ _ _ => True)
  (fun q _ => q.state.report.executed = l.report.executed) m
  (fun _ l' _ => l'.report.executed = l.report.executed) l ()

def record (l : Local) : Bool × Exit × Option String × Option String × Bool :=
  (l.reported, l.report.exitCode, l.report.message, l.report.failedMigration, l.report.connectionDiscarded)

def settled (l : Local) : (Bool × Exit × Option String × Option String) × List String :=
  ((l.reported, l.report.exitCode, l.report.message, l.report.failedMigration), l.report.executed)

def account (l : Local) : (Bool × Exit × Option String × Option String × Bool) × List String :=
  (record l, l.report.executed)

section Rules

variable {m n : Run α} {f : α → Run β} {view : Local → V}

theorem Shows.pure (a : α) : Shows view (Pure.pure a : Run α) := fun _ => rfl

theorem Shows.throw (e : Exc) : Shows view (Proc.throw e : Run α) := fun _ => rfl

theorem Shows.raise (e : Migr8Error) : Shows view (World.raise e : Run α) := fun _ => rfl

theorem Shows.get (g : Local → α) : Shows view (World.get g) := fun _ => rfl

theorem Shows.modify {g : Local → Local} (h : ∀ l, view (g l) = view l) :
    Shows view (World.modify g) := h

theorem Shows.perform (op : Op) : Shows view (World.perform op) := by
  intro l
  apply wp_perform.2
  exact ⟨rfl, fun o _ => rfl⟩

theorem Shows.next (h : Shows view n) {l l' : Local} (hl : view l' = view l) (c : Unit) :
    wp (echo fun (_ : Request) (_ : Unit) => ()) (fun _ _ _ => True)
      (fun q _ => view q.state = view l) n
      (fun _ l' _ => view l' = view l) l' c := by
  rw [← hl]
  exact h l'

theorem Shows.bind (hm : Shows view m) (hf : ∀ a, Shows view (f a)) : Shows view (m >>= f) := by
  intro l
  apply (wp_bind m f).2
  apply wp_mono (hm l)
  intro r l' c hl
  cases r with
  | error e => exact hl
  | ok a => exact (hf a).next hl c

theorem Shows.tryCatch {h : Exc → Run α} (hm : Shows view m) (hh : ∀ e, Shows view (h e)) :
    Shows view (m.tryCatch h) := by
  intro l
  apply (wp_tryCatch m h).2
  apply wp_mono (hm l)
  intro r l' c hl
  cases r with
  | error e => exact (hh e).next hl c
  | ok a => exact hl

theorem Shows.attempt (hm : Shows view m) : Shows view m.attempt := fun l => (wp_attempt m).2 (hm l)

theorem Shows.finally {n : Run Unit} (hm : Shows view m) (hn : Shows view n) : Shows view (m.finally_ n) := by
  intro l
  apply (wp_finally m n).2
  apply wp_mono (hm l)
  intro r l' c hl
  apply wp_mono (hn.next hl c)
  intro r' l'' c' hl'
  cases r' with
  | error e => exact hl'
  | ok a => exact hl'

theorem Shows.ite {c : Prop} [Decidable c] (hm : Shows view m) (hn : Shows view n) :
    Shows view (if c then m else n) := by
  by_cases hc : c
  · rw [if_pos hc]
    exact hm
  · rw [if_neg hc]
    exact hn

theorem Shows.onlyIf {n : Run Unit} (b : Bool) (hn : Shows view n) : Shows view (World.onlyIf b n) := by
  cases b with
  | false => exact Shows.pure ()
  | true => exact hn

theorem Shows.map (g : V → W) (h : Shows view m) : Shows (fun l => g (view l)) m := by
  intro l
  apply wp_weaken (wp_mono (h l) fun _ _ _ hl => congrArg g hl) (fun _ _ _ h => h)
  exact fun _ _ hq => congrArg g hq

theorem spares_iff : Spares m ↔ Shows (fun l => l.report.executed) m := Iff.rfl

theorem Shows.spares (h : Shows account m) : Spares m := h.map Prod.snd

end Rules

section Adapters

variable {m : Run α} (adapter : Adapter)

theorem Shows.checkLatch : Shows account Adapters.checkLatch := by
  apply Shows.bind (.get _)
  intro e
  cases e with
  | none => exact .pure ()
  | some e => exact .raise e

theorem Shows.guarded {g : Guard} (hm : Shows account m) : Shows account (Adapters.guarded adapter g m) := by
  apply Shows.bind .checkLatch
  intro _
  apply Shows.tryCatch hm
  intro e
  have hother (e : Exc) : Shows account (if isDefinite adapter g.commitCapable e then Proc.throw e else do
      latchUnknown g adapter e
      World.raise (g.unknownOutcome adapter e) : Run α) :=
    .ite (.throw e) (.bind (.modify fun _ => rfl) fun _ => .raise _)
  cases e with
  | migr8 e => exact .raise e
  | driver e => exact hother (.driver e)
  | commitOutcomeUnknown code => exact hother (.commitOutcomeUnknown code)
  | plain name => exact hother (.plain name)
  | interrupt => exact hother .interrupt
  | base name => exact hother (.base name)

theorem Shows.probeTransaction : Shows account (Adapters.probeTransaction adapter) := by
  cases adapter with
  | oracle => exact .bind (.perform _) fun _ => .pure _
  | sqlite => exact .bind (.perform _) fun _ => .pure _
  | postgres => exact .bind (.perform _) fun _ => .pure _

theorem Shows.hasOpenTransaction : Shows account (Adapters.hasOpenTransaction adapter) :=
  .guarded adapter (.probeTransaction adapter)

theorem Shows.advanceEpoch : Shows account Adapters.advanceEpoch := .modify fun _ => rfl

theorem Shows.setEngineTransaction (value : Bool) : Shows account (Adapters.setEngineTransaction value) :=
  .modify fun _ => rfl

theorem Shows.doBegin : Shows account (Adapters.doBegin adapter) := by
  cases adapter with
  | sqlite => exact .bind (.perform _) fun _ => .advanceEpoch
  | postgres => exact .perform _
  | oracle => exact .pure ()

theorem Shows.begin : Shows account (Adapters.begin adapter) :=
  .bind (.get _) fun _ => .ite (.raise _) (.bind (.hasOpenTransaction adapter) fun _ => .ite (.raise _)
    (.bind (.guarded adapter (.doBegin adapter)) fun _ => .setEngineTransaction true))

theorem Shows.commitFailed (wasOpen : Bool) (e : Exc) : Shows account (Adapters.commitFailed wasOpen e : Run α) := by
  unfold Adapters.commitFailed
  split
  · exact .ite (.throw _) (.throw _)
  · exact .throw e

theorem Shows.commit (b : Boundary) : Shows account (Adapters.commit adapter b) := by
  refine .bind ?_ fun _ => .setEngineTransaction false
  cases adapter with
  | sqlite =>
      exact .bind (.perform _) fun _ => .bind (.tryCatch (.perform _) (.commitFailed _)) fun _ => .advanceEpoch
  | postgres =>
      exact .bind (.perform _) fun _ => .ite (.throw _) (.bind (.perform _) fun _ => .ite (.throw _) (.pure ()))
  | oracle => exact .bind (.perform _) fun _ => .pure ()

theorem Shows.rollback : Shows account (Adapters.rollback adapter) := by
  refine .bind ?_ fun _ => .setEngineTransaction false
  cases adapter with
  | sqlite =>
      exact .bind (.perform _) fun _ => .onlyIf _ (.bind (.perform _) fun _ => .advanceEpoch)
  | postgres => exact .bind (.perform _) fun _ => .onlyIf _ (.perform _)
  | oracle => exact .perform _

theorem Shows.durableCommit (b : Boundary) (id : Option String) : Shows account (Adapters.durableCommit adapter b id) :=
  .guarded adapter (.commit adapter b)

theorem Shows.batchTransactionState : Shows account (Adapters.batchTransactionState adapter) :=
  .bind (.perform _) fun _ => .ite (.pure _) (.pure _)

theorem Shows.establishTransactionIdentity : Shows account (Adapters.establishTransactionIdentity adapter) := by
  apply Shows.guarded
  cases adapter with
  | sqlite => exact .bind (.perform _) fun _ => .ite (.bind (.get _) fun _ => .pure _) (.raise _)
  | postgres => exact .bind (.perform _) fun _ => .pure _
  | oracle => exact .bind (.perform _) fun _ => .pure _

theorem Shows.readTransactionIdentity : Shows account (Adapters.readTransactionIdentity adapter) := by
  apply Shows.guarded
  cases adapter with
  | sqlite => exact .bind (.perform _) fun _ => .ite (.bind (.get _) fun _ => .pure _) (.pure _)
  | postgres => exact .bind (.perform _) fun _ => .ite (.bind (.perform _) fun _ => .pure _) (.pure _)
  | oracle => exact .bind (.perform _) fun _ => .pure _

variable (c : Config)

theorem Shows.exec (op : Op) (operation phase : String) (id : Option String) :
    Shows account (Adapters.exec c op operation phase id) := .guarded _ (.perform op)

theorem Shows.metadataExecuteInTransaction {update : Run Nat} (hu : Shows account update) (what : String) :
    Shows account (Adapters.metadataExecuteInTransaction c update what) :=
  .bind (.begin _) fun _ => .bind hu fun _ => .ite (.pure ()) (.bind (.rollback _) fun _ => .raise _)

theorem Shows.insertActiveRow (unit : CapturedUnit) : Shows account (Adapters.insertActiveRow c unit) :=
  .bind (.begin _) fun _ => .bind (.exec c _ _ _ _) fun _ => .durableCommit _ _ _

theorem Shows.updateActiveAttempt (unit : CapturedUnit) : Shows account (Adapters.updateActiveAttempt c unit) :=
  .bind (.metadataExecuteInTransaction c (.exec c _ _ _ _) _) fun _ => .durableCommit _ _ _

theorem Shows.completeActiveRow (id : String) : Shows account (Adapters.completeActiveRow c id) :=
  .bind (.metadataExecuteInTransaction c (.exec c _ _ _ _) _) fun _ =>
    .bind (.exec c _ _ _ _) fun _ => .durableCommit _ _ _

theorem Shows.progressSet (scope : Scope) (key value : String) :
    Shows account (Adapters.progressSet c scope key value) :=
  .bind (.get _) fun _ => .ite (.exec c _ _ _ _) (.raise _)

theorem Shows.executeDdl (scope : Scope) (sql : String) (concurrent : Bool) :
    Shows account (Adapters.executeDdl adapter scope sql concurrent) := by
  have hplain : Shows account (do let _ ← World.perform (.statement scope .ddl sql true) : Run Unit) :=
    .bind (.perform _) fun _ => .pure ()
  have htxn : Shows account (executeDdlInTransaction adapter scope sql) :=
    .bind (.begin _) fun _ => .bind (.tryCatch (.perform _) fun _ => .bind (.onlyIf _ (.rollback _)) fun _ => .throw _)
      fun _ => .durableCommit _ _ _
  unfold Adapters.executeDdl
  split
  · exact hplain
  · exact hplain
  · exact htxn

theorem Shows.checkRequiredObjects (required : List RequiredObject) :
    Shows account (Adapters.checkRequiredObjects adapter required) := by
  refine .ite (.pure _) (.guarded adapter ?_)
  cases adapter with
  | oracle => exact .tryCatch (.perform _) fun _ => .ite (.pure _) (.throw _)
  | sqlite => exact .pure _
  | postgres => exact .pure _

theorem Shows.suppressDriverError {m : Run Unit} (hm : Shows account m) :
    Shows account (Adapters.suppressDriverError adapter m) :=
  .tryCatch hm fun _ => .ite (.pure ()) (.throw _)

theorem Shows.acquireLock : Shows account (Adapters.acquireLock adapter) :=
  .bind (.tryCatch (.perform _) fun _ => .ite (.raise _) (.throw _)) fun _ => .modify fun _ => rfl

theorem Shows.prepareStorage : Shows account (Adapters.prepareStorage adapter) := by
  cases adapter with
  | sqlite => exact .tryCatch (.perform _) fun _ => .ite (.raise _) (.throw _)
  | postgres => exact .pure ()
  | oracle => exact .pure ()

theorem Shows.dropLock : Shows account Adapters.dropLock := .modify fun _ => rfl

theorem Shows.dropConnection : Shows account Adapters.dropConnection := .modify fun _ => rfl

theorem Shows.releaseLock : Shows account (Adapters.releaseLock adapter) := by
  refine .bind (.get _) fun _ => .onlyIf _ ?_
  cases adapter with
  | sqlite => exact .finally (.perform _) .dropLock
  | postgres => exact .finally (.suppressDriverError _ (.perform _)) .dropLock
  | oracle => exact .finally (.suppressDriverError _ (.perform _)) .dropLock

theorem Shows.close : Shows account (Adapters.close adapter) := by
  have hserver : Shows account (do
      let held ← World.get (·.connectionHeld)
      World.onlyIf held (Proc.finally_
        (do
          let opened ← Adapters.probeTransaction adapter
          World.onlyIf opened (World.perform .closeRollback)
          Adapters.releaseLock adapter)
        ((World.perform .closeConnection).finally_ Adapters.dropConnection)) : Run Unit) :=
    .bind (.get _) fun _ => .onlyIf _ (.finally (.bind (.probeTransaction adapter) fun _ =>
      .bind (.onlyIf _ (.perform _)) fun _ => .releaseLock adapter) (.finally (.perform _) .dropConnection))
  cases adapter with
  | sqlite =>
      exact .bind (.get _) fun _ =>
        .bind (.onlyIf _ (.bind (.perform _) fun _ => .bind (.onlyIf _ (.perform _)) fun _ =>
        .bind (.perform _) fun _ => .dropConnection)) fun _ => .releaseLock _
  | postgres => exact hserver
  | oracle => exact hserver

theorem Shows.discard : Shows account (Adapters.discard adapter) := by
  have hserver : Shows account (do
      let held ← World.get (·.connectionHeld)
      World.onlyIf held do
        Adapters.dropLock
        (Adapters.suppressDriverError adapter (World.perform .discardConnection)).finally_ Adapters.dropConnection :
        Run Unit) :=
    .bind (.get _) fun _ => .onlyIf _ (.bind .dropLock fun _ =>
      .finally (.suppressDriverError _ (.perform _)) .dropConnection)
  cases adapter with
  | sqlite =>
      exact .bind (.get _) fun _ => .bind (.onlyIf _ (.bind (.suppressDriverError _ (.perform _)) fun _ =>
        .dropConnection)) fun _ => .releaseLock _
  | postgres => exact hserver
  | oracle => exact hserver

end Adapters

section Metadata

variable (c : Config)

theorem Shows.readMeta : Shows account (Metadata.readMeta c) := by
  refine .bind (.exec c _ _ _ _) fun _ => .bind (.exec c _ _ _ _) fun rows => ?_
  cases rows with
  | nil => exact .pure _
  | cons row rows => exact .bind (.perform _) fun _ => .pure _

theorem Shows.inspectMarker (present : List Database.ObjectName) (problems : List String) :
    Shows account (Metadata.inspectMarker c present problems) := by
  refine .ite (.bind (.attempt (.readMeta c)) fun r => ?_) (.pure _)
  match r with
  | .error e => exact .ite (.pure _) (.throw _)
  | .ok (some row, rows) => exact .pure _
  | .ok (none, rows) => exact .pure _

theorem Shows.countOf (table : Database.ObjectName) {count : Run Nat} (hc : Shows account count)
    (present : List Database.ObjectName) : Shows account (Metadata.countOf table count present) :=
  .ite (.bind hc fun _ => .pure _) (.pure _)

theorem Shows.inspectMetadata : Shows account (Metadata.inspectMetadata c) :=
  .bind (.exec c _ _ _ _) fun _ => .bind (.exec c _ _ _ _) fun _ => .bind (.inspectMarker c _ _) fun _ =>
    .bind (.countOf _ (.exec c _ _ _ _) _) fun _ => .bind (.countOf _ (.exec c _ _ _ _) _) fun _ => .pure _

theorem Shows.createMetadataObject (name : Database.ObjectName) :
    Shows account (Metadata.createMetadataObject c name) := by
  have hserver : Shows account (do
      Adapters.begin c.adapter
      World.perform (.createObject name)
      Adapters.durableCommit c.adapter .metadataObjectCreated : Run Unit) :=
    .bind (.begin _) fun _ => .bind (.perform _) fun _ => .durableCommit _ _ _
  unfold Metadata.createMetadataObject
  split
  · exact .guarded _ (.perform _)
  · exact hserver

theorem Shows.createMissing (present names : List Database.ObjectName) :
    Shows account (Metadata.createMissing c present names) := by
  induction names with
  | nil => exact .pure ()
  | cons name names ih => exact .ite ih (.bind (.guarded _ (.createMetadataObject c name)) fun _ => ih)

theorem Shows.initializeMetadata : Shows account (Metadata.initializeMetadata c) :=
  .bind (.exec c _ _ _ _) fun _ => .bind (.createMissing c _ _) fun _ => .bind (.exec c _ _ _ _) fun _ =>
    .bind (.exec c _ _ _ _) fun _ => .ite (.raise _) (.bind (.begin _) fun _ => .bind (.exec c _ _ _ _) fun _ =>
      .durableCommit _ _ _)

theorem Shows.readSnapshot : Shows account (Metadata.readSnapshot c) := by
  have hend : Shows account (do
      let _ ← World.perform .snapshotCommit
      Adapters.advanceEpoch : Run Unit) := .bind (.perform _) fun _ => .advanceEpoch
  have hsqlite : Shows account (readSnapshotSqlite c) :=
    .bind (.perform _) fun _ => .bind (.onlyIf _ (.bind (.perform _) fun _ => .advanceEpoch)) fun _ =>
      .finally (.bind (.perform _) fun _ => .bind (.perform _) fun _ => .bind (.perform _) fun _ =>
        .bind (.perform _) fun _ => .bind (.readMeta c) fun _ => .pure _) (.onlyIf _ hend)
  have hclose : Shows account endSnapshotPostgres := .bind (.perform _) fun _ => .pure ()
  have hpostgres : Shows account (readSnapshotPostgres c) :=
    .bind (.perform _) fun _ => .bind (.onlyIf _ (.perform _)) fun _ =>
      .bind (.tryCatch (.bind (.exec c _ _ _ _) fun _ => .bind (.perform _) fun _ => .bind (.exec c _ _ _ _) fun _ =>
        .bind (.perform _) fun _ => .bind (.readMeta c) fun _ => .pure _) fun _ => .bind (.get _) fun _ =>
          .bind (.onlyIf _ hclose) fun _ => .throw _) fun _ => .bind (.onlyIf _ hclose) fun _ => .pure _
  have horacle : Shows account readSnapshotOracle :=
    .bind (.perform _) fun _ => .bind (.perform _) fun _ => .ite (.raise _) (.pure _)
  refine .guarded c.adapter ?_
  cases c.adapter with
  | sqlite => exact hsqlite
  | postgres => exact hpostgres
  | oracle => exact horacle

end Metadata

section Context

variable (env : Env)

theorem Shows.refuse (r : Option TextError) : Shows account (Context.refuse r) := by
  cases r with
  | none => exact .pure ()
  | some e => exact .throw _

theorem Shows.liftText (x : Except TextError α) : Shows account (Context.liftText x) := by
  cases x with
  | ok a => exact .pure a
  | error e => exact .throw _

theorem Shows.failBatch (e : Migr8Error) (h : e.kind = .migrationFailed) :
    Shows account (Context.failBatch e h : Run α) :=
  .bind (.modify fun _ => rfl) fun _ => .raise e

theorem Shows.violate (e : Migr8Error) (h : e.kind = .contractViolation) :
    Shows account (Context.violate e h : Run α) :=
  .bind (.modify fun _ => rfl) fun _ => .raise e

theorem Shows.checkTransactionIdentity (adapter : Adapter) (established : Option Identity) (id scope outcome : String) :
    Shows account (Context.checkTransactionIdentity adapter established id scope outcome) := by
  cases established with
  | none => exact .pure ()
  | some i => exact .bind (.readTransactionIdentity adapter) fun _ => .ite (.pure ()) (.violate _ _)

theorem Shows.admitCall (operation : String) : Shows account (Context.admitCall env operation) := by
  refine .bind .checkLatch fun _ => .bind (.get _) fun _ => .ite (.bind (.batchTransactionState _) fun state => ?_)
    (.pure ())
  cases state with
  | «open» => exact .pure ()
  | rolledBack => exact .failBatch _ _
  | ended => exact .violate _ _

theorem Shows.prepare (sql operation : String) : Shows account (Context.prepare env sql operation) :=
  .bind (.admitCall env operation) fun _ => .bind (.get _) fun _ => .refuse _

theorem Shows.runStatement (verb : Verb) (sql operation : String) :
    Shows account (Context.runStatement env verb sql operation) :=
  .bind (.get _) fun _ => .guarded _ (.perform _)

theorem Shows.raiseIf (e : Option Migr8Error) : Shows account (Context.raiseIf e) := by
  cases e with
  | none => exact .pure ()
  | some e => exact .raise e

theorem Shows.getProgress (key : String) : Shows account (Context.getProgress env key) := by
  refine .bind (.admitCall env _) fun _ => .bind (.raiseIf _) fun _ =>
    .bind (.guarded _ (.exec _ _ _ _ _)) fun value => ?_
  cases value with
  | none => exact .pure _
  | some text => exact .pure _

theorem Shows.setProgress (key value : String) : Shows account (Context.setProgress env key value) :=
  .bind (.admitCall env _) fun _ => .bind (.raiseIf _) fun _ => .bind (.raiseIf _) fun _ => .bind (.get _) fun _ =>
    .ite (.bind (.guarded _ (.progressSet _ _ _ _)) fun _ => .pure _) (.raise _)

theorem Shows.rollbackBatch : Shows account (Context.rollbackBatch env) :=
  .tryCatch (.rollback _) fun _ => .ite (.pure ()) (.throw _)

theorem Shows.commitBatch : Shows account (Context.commitBatch env) :=
  .tryCatch (.durableCommit _ _ _) fun _ => .ite (.throw _) (.ite (.raise _) (.throw _))

theorem Shows.inspectBatch (established : Option Identity) (failed : Bool) :
    Shows account (Context.inspectBatch env established failed) := by
  refine .bind (.batchTransactionState _) fun state => ?_
  cases state with
  | «open» => exact .bind (.checkTransactionIdentity _ _ _ _ _) fun _ => .pure _
  | rolledBack => exact .bind (.rollbackBatch env) fun _ => .ite (.pure _) (.failBatch _ _)
  | ended => exact .violate _ _

theorem Shows.batchCheckFailed (failed : Bool) (e : Exc) : Shows account (Context.batchCheckFailed env failed e) := by
  unfold Context.batchCheckFailed
  split
  · exact .pure _
  · exact .pure _
  · exact .throw e
  · exact .ite (.bind (.rollbackBatch env) fun _ => .ite (.pure _) (.failBatch _ _)) (.throw e)

theorem Shows.settleBatch (failed : Bool) : Shows account (Context.settleBatch env failed) :=
  .bind (.get _) fun _ => .ite (.bind (.onlyIf _ (.rollbackBatch env)) fun _ => .ite (.pure ()) .checkLatch)
    (.ite (.rollbackBatch env) (.commitBatch env))

theorem Shows.finishBatch (established : Option Identity) (failed : Bool) :
    Shows account (Context.finishBatch env established failed) :=
  .bind (.get _) fun _ => .ite (.settleBatch env failed)
    (.bind (.tryCatch (.inspectBatch env _ _) fun _ => .batchCheckFailed env _ _) fun _ =>
      .onlyIf _ (.settleBatch env failed))

theorem Shows.enterBatch (batch : Nat) : Shows account (Context.enterBatch env batch) :=
  .bind .checkLatch fun _ => .bind (.get _) fun _ => .ite (.raise _) (.bind (.hasOpenTransaction _) fun _ =>
    .ite (.raise _) (.bind (.begin _) fun _ => .bind (.tryCatch (.establishTransactionIdentity _) fun _ =>
      .bind (.onlyIf _ (.rollbackBatch env)) fun _ => .throw _) fun _ => .modify fun _ => rfl))

theorem Shows.exitBatch (established : Option Identity) (failed : Bool) :
    Shows account (Context.exitBatch env established failed) :=
  .bind (.modify fun _ => rfl) fun _ => .finishBatch env _ _

theorem Shows.ddl (sql : String) : Shows account (Context.ddl env sql) :=
  .bind .checkLatch fun _ => .bind (.get _) fun _ => .ite (.raise _) (.bind (.refuse _) fun _ =>
    .bind (.hasOpenTransaction _) fun _ => .ite (.raise _) (.guarded _ (.executeDdl _ _ _ _)))

theorem Shows.restartableOnly {m : Run Unit} (hm : Shows account m) : Shows account (Context.restartableOnly env m) :=
  .ite (.bind hm fun _ => .pure _) (.throw _)

theorem Shows.onBatch (batch : Nat) {m : Option Identity → Run Unit} (hm : ∀ i, Shows account (m i)) :
    Shows account (Context.onBatch batch m) := by
  refine .bind (.get _) fun identity => ?_
  cases identity with
  | none => exact .throw _
  | some identity => exact hm identity

theorem Shows.answer (c : Call) : Shows account (Context.answer env c) := by
  cases c with
  | execute sql => exact .bind (.prepare env _ _) fun _ => .runStatement env _ _ _
  | executemany sql sets => exact .bind (.prepare env _ _) fun _ => .ite (.pure _) (.runStatement env _ _ _)
  | query sql => exact .bind (.prepare env _ _) fun _ => .runStatement env _ _ _
  | sql path => exact .bind (.admitCall env _) fun _ => .bind (.liftText _) fun _ => .pure _
  | log message => exact .bind (.perform _) fun _ => .pure _
  | progressGet key => exact .ite (.getProgress env key) (.throw _)
  | progressSet key value => exact .ite (.setProgress env key value) (.throw _)
  | transaction =>
      exact .ite (.bind .checkLatch fun _ => .bind (.get _) fun _ => .bind (.modify fun _ => rfl) fun _ => .pure _)
        (.throw _)
  | enter batch => exact .restartableOnly env (.onBatch batch fun _ => .enterBatch env batch)
  | exit batch failed => exact .restartableOnly env (.onBatch batch fun _ => .exitBatch env _ _)
  | ddl sql => exact .restartableOnly env (.ddl env sql)

theorem Shows.runProgram (p : Program) : Shows account (Context.runProgram env p) := by
  induction p with
  | ret value => exact .pure value
  | raise e => exact .throw e
  | call c next ih => exact .bind (.attempt (.answer env c)) fun r => .bind (.perform _) fun _ => ih r

end Context

section Engine

variable (input : Input) (unit : CapturedUnit)

theorem Shows.admitSqlEntry (phase : String) : Shows account (Engine.admitSqlEntry input unit phase) :=
  .bind (.liftText _) fun _ => .ite (.bind (.refuse _) fun _ => .pure _)
    (.ite (.bind (.refuse _) fun _ => .pure _) (.bind (.refuse _) fun _ => .pure _))

theorem Shows.preflight (units : List CapturedUnit) : Shows account (Engine.preflight input units) := by
  have hunit (unit : CapturedUnit) : Shows account (preflightUnit input unit) := by
    unfold preflightUnit
    refine .bind (.ite (.refuse _) (.ite (.pure ()) (.raise _))) fun _ => ?_
    cases unit.language with
    | sql => exact .bind (.admitSqlEntry input unit _) fun _ => .pure ()
    | python => exact .liftText _
  induction units with
  | nil => exact .pure ()
  | cons unit units ih => exact .bind (hunit unit) fun _ => ih

theorem Shows.rollbackQuietly (adapter : Adapter) : Shows account (Engine.rollbackQuietly adapter) :=
  .bind (.get _) fun _ => .ite (.pure ()) (.tryCatch (.rollback adapter) fun _ => .ite (.pure ()) (.throw _))

theorem Shows.discardQuietly (adapter : Adapter) : Shows account (Engine.discardQuietly adapter) := by
  have htry (n : Nat) : Shows account (tryDiscard adapter n) := by
    induction n with
    | zero => exact .pure ()
    | succ n ih =>
        refine .bind (.attempt (.discard adapter)) fun r => ?_
        split
        · exact .pure ()
        · exact ih
        · exact .ite (.pure ()) (.throw _)
  exact .bind (.get _) fun _ => .bind (htry 2) fun _ => .pure _

theorem Shows.noteDiscarded (reason : String) : Shows settled (Engine.noteDiscarded reason) := .modify fun _ => rfl

theorem Shows.closeQuietly (adapter : Adapter) : Shows settled (Engine.closeQuietly adapter) := by
  have hsettled {β : Type} {m : Run β} (hm : Shows account m) : Shows settled m :=
    hm.map fun a => ((a.1.1, a.1.2.1, a.1.2.2.1, a.1.2.2.2.1), a.2)
  refine .tryCatch (hsettled (.close adapter)) fun e => ?_
  split
  · exact .bind (hsettled (.discardQuietly adapter)) fun _ => .onlyIf _ (.noteDiscarded _)
  · exact .ite (.pure ()) (.throw _)

theorem Shows.fail (e : Migr8Error) (code : Exit) (discarded : Bool) :
    Shows (fun l => l.report.executed) (Engine.fail e code discarded) :=
  .bind (.modify fun _ => rfl) fun _ => .perform _

theorem Spares.terminate (adapter : Adapter) (e : Exc) : Spares (Engine.terminate adapter e) := by
  have hclose : Shows (fun l => l.report.executed) (Engine.closeQuietly adapter) :=
    (Shows.closeQuietly adapter).map Prod.snd
  have hdrop : Shows (fun l => l.report.executed) (Engine.discardQuietly adapter) :=
    (Shows.discardQuietly adapter).spares
  have hroll : Shows (fun l => l.report.executed) (Engine.rollbackQuietly adapter) :=
    (Shows.rollbackQuietly adapter).spares
  refine spares_iff.2 (.bind (.get _) fun error => ?_)
  cases error with
  | none =>
      exact .bind (.fail _ _ _) fun _ => .bind (.get _) fun _ => .bind (.onlyIf _ (.bind hroll fun _ => hclose))
        fun _ => .get _
  | some error =>
      exact .bind (.fail _ _ _) fun _ => .bind (.onlyIf _ (.modify fun _ => rfl)) fun _ => .bind (.get _) fun _ =>
        .bind (.onlyIf _ (.ite (.bind hdrop fun _ => .pure ()) hclose)) fun _ => .get _

theorem Spares.settling {m : Run Report} (hm : Spares m) : Spares (Engine.settling input m) := by
  have hdrop : Shows (fun l => l.report.executed) (Engine.discardQuietly input.adapter) :=
    (Shows.discardQuietly _).spares
  have hnote (reason : String) : Shows (fun l => l.report.executed) (Engine.noteDiscarded reason) :=
    (Shows.noteDiscarded reason).map Prod.snd
  refine spares_iff.2 (.tryCatch (spares_iff.1 hm) fun e => ?_)
  split
  · exact .bind hdrop fun _ => .bind (.get _) fun _ => .bind (.get _) fun _ => .bind (.onlyIf _ (.fail _ _ _)) fun _ =>
      .bind (.onlyIf _ (hnote _)) fun _ => .get _
  · exact .throw _

theorem Spares.conclude (r : Except Exc Unit) : Spares (Engine.conclude input r) := by
  have hclose : Shows (fun l => l.report.executed) (Engine.closeQuietly input.adapter) :=
    (Shows.closeQuietly _).map Prod.snd
  cases r with
  | error e => exact .terminate _ e
  | ok u =>
      exact spares_iff.2
        (.bind (.modify fun _ => rfl) fun _ => .bind hclose fun _ => .bind (.perform _) fun _ => .get _)

theorem Shows.invokeEntry (attempt : Option Int) : Shows account (Engine.invokeEntry input unit attempt) := by
  unfold Engine.invokeEntry
  cases unit.language with
  | sql =>
      refine .bind (.admitSqlEntry input unit _) fun admitted => ?_
      cases admitted.category with
      | atomicStatement => exact .bind (.guarded _ (.perform _)) fun _ => .pure ()
      | restartableProcedural => exact .bind (.guarded _ (.perform _)) fun _ => .pure ()
      | restartableDdl =>
          exact .bind (.hasOpenTransaction _) fun _ => .ite (.raise _) (.guarded _ (.executeDdl _ _ _ _))
  | python =>
      dsimp only [Engine.invokePython]
      cases input.loadEntry unit with
      | error e => exact .throw e
      | ok migrate =>
          refine .bind (.runProgram _ _) fun value => ?_
          cases value with
          | nothing => exact .pure ()
          | deferred kind => exact .raise _
          | other typeName => exact .raise _

theorem Shows.invoke (attempt : Option Int) : Shows account (Engine.invoke input unit attempt) := by
  refine .bind (.modify fun _ => rfl) fun _ => .bind (.perform _) fun _ =>
    .bind (.attempt (.invokeEntry _ _ _)) fun r =>
    .bind (.perform _) fun _ => ?_
  cases r with
  | ok a => exact .pure ()
  | error e => exact .throw e

theorem Shows.latchedOr (e : Migr8Error) : Shows account (Engine.latchedOr e : Run α) :=
  .bind (.get _) fun _ => .raise _

theorem Shows.requireValid : Shows account (Engine.requireValid input unit) :=
  .bind (.checkRequiredObjects _ _) fun _ => .bind (.modify fun _ => rfl) fun _ => .ite (.pure ()) (.raise _)

theorem Shows.runAtomic : Shows account (Engine.runAtomic input unit) := by
  have hbody (identity : Identity) : Shows account (atomicBody input unit identity) :=
    .bind (.invoke input unit _) fun _ => .bind .checkLatch fun _ => .bind (.requireValid input unit) fun _ =>
      .bind (.checkTransactionIdentity _ _ _ _ _) fun _ => .exec _ _ _ _ _
  have hhandler (e : Exc) : Shows account (handleAtomic input unit e) := by
    unfold handleAtomic
    split
    · exact .throw e
    · exact .bind (.rollbackQuietly _) fun _ => .throw e
    · exact .bind (.rollbackQuietly _) fun _ => .throw e
    · exact .ite (.bind (.rollbackQuietly _) fun _ => .latchedOr _) (.throw e)
  exact .bind (.begin _) fun _ => .bind (.establishTransactionIdentity _) fun _ =>
    .bind (.tryCatch (hbody _) hhandler) fun _ => .durableCommit _ _ _

theorem Shows.postReturnCleanup : Shows account (Engine.postReturnCleanup input) :=
  .bind (.get _) fun _ => .ite (.pure ()) (.ite (.rollbackQuietly _) (.bind (.hasOpenTransaction _) fun _ =>
    .onlyIf _ (.rollbackQuietly _)))

theorem Shows.admitUnit (active : Option HistoryRow) : Shows account (Engine.admitUnit input unit active) := by
  cases active with
  | none => exact .bind (.insertActiveRow _ _) fun _ => .pure _
  | some row => exact .bind (.updateActiveAttempt _ _) fun _ => .pure _

theorem Shows.admitted (attempt : Option Int) : Shows account (do
    World.perform (.log "admitted" (some unit.id))
    (Engine.invoke input unit attempt).tryCatch (Engine.handleRestartable input unit)
    Adapters.checkLatch
    if ← Engine.transactionLeftOpen input then do
      Engine.rollbackQuietly input.adapter
      World.raise (leftOpen unit)
    else do
      Engine.requireValid input unit
      Adapters.completeActiveRow input.config unit.id) := by
  have hhandler (e : Exc) : Shows account (handleRestartable input unit e) := by
    unfold handleRestartable
    split
    · exact .throw e
    · exact .bind (.postReturnCleanup _) fun _ => .throw e
    · exact .bind (.postReturnCleanup _) fun _ => .throw e
    · exact .ite (.bind (.postReturnCleanup _) fun _ => .latchedOr _) (.throw e)
  have hleft : Shows account (transactionLeftOpen input) := .bind (.get _) fun _ =>
      .ite (.pure _) (.hasOpenTransaction _)
  exact .bind (.perform _) fun _ => .bind (.tryCatch (.invoke input unit _) hhandler) fun _ =>
    .bind .checkLatch fun _ => .bind hleft fun _ => .ite (.bind (.rollbackQuietly _) fun _ => .raise _)
      (.bind (.requireValid input unit) fun _ => .completeActiveRow _ _)

theorem Shows.runRestartable (active : Option HistoryRow) : Shows account (Engine.runRestartable input unit active) :=
  .bind (.admitUnit input unit active) fun attempt => .admitted input unit attempt

theorem Shows.runUnit (active : Option HistoryRow) : Shows account (Engine.runUnit input active unit) := by
  unfold Engine.runUnit
  cases unit.mode with
  | atomic => exact .runAtomic input unit
  | restartable => exact .runRestartable input unit _

theorem Shows.liftError (x : Except Migr8Error α) : Shows account (Engine.liftError x) := by
  cases x with
  | ok a => exact .pure a
  | error e => exact .raise e

theorem Shows.buildPlan : Shows account (Engine.buildPlan input) :=
  .bind (.readSnapshot _) fun _ => .bind (.liftError _) fun _ => .bind (.liftError _) fun _ => .pure _

theorem Shows.openNamespace : Shows account (Engine.openNamespace input) := by
  have hrow (report : MetadataReport) : Shows account (admitRecoveryNamespace input report) := by
    unfold admitRecoveryNamespace
    split
    · exact .pure ()
    · exact .pure ()
    · exact .raise _
    · exact .raise _
  have hinit (report : MetadataReport) : Shows account (initializeIfNeeded input report) := by
    have hcomplete : Shows account (completeInitialization input) :=
      .bind (.initializeMetadata _) fun _ => .bind (.inspectMetadata _) fun _ => .ite (.pure _) (.raise _)
    refine .bind ?_ fun _ => .liftError _
    unfold completed
    cases report.state with
    | damaged => exact .raise _
    | absent => exact hcomplete
    | incompleteCompatible => exact hcomplete
    | complete => exact .pure _
  exact .bind (.modify fun _ => rfl) fun _ => .bind (.preflight input _) fun _ => .bind (.perform _) fun _ =>
    .bind (.bind (.perform _) fun _ => .modify fun _ => rfl) fun _ => .bind (.modify fun _ => rfl) fun _ =>
      .bind (.perform _) fun _ => .bind (.acquireLock _) fun _ => .bind (.perform _) fun _ =>
        .bind (.inspectMetadata _) fun _ => .bind (hrow _) fun _ => .bind (.prepareStorage _) fun _ => hinit _

theorem Shows.execute (active : Option HistoryRow) (units : List CapturedUnit) :
    Shows record (Engine.execute input active units) := by
  induction units with
  | nil => exact .pure ()
  | cons unit units ih =>
      exact .bind (.perform _) fun _ => .bind ((Shows.runUnit input unit active).map Prod.fst) fun _ =>
        .bind (.modify fun _ => rfl) fun _ => .bind (.perform _) fun _ => ih

theorem Shows.migrate : Shows record (Engine.migrate input) :=
  .bind ((Shows.openNamespace input).map Prod.fst) fun _ => .bind ((Shows.buildPlan input).map Prod.fst) fun _ =>
    .bind (.perform _) fun _ => .execute input _ _

end Engine

end Migr8.Untouched
