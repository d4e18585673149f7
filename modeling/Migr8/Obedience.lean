import Migr8.Discipline

namespace Migr8.Obedience

open Errors Model Latch Driver Database World Adapters Metadata Context Engine Rules Discipline Lib.Process

variable {adapter : Adapter} {K : Op → Prop} {α : Type}

/-- What migration code of `unit` can make the engine ask for. -/
def UserOp (unit : CapturedUnit) : Op → Prop
  | .log event _ => event = "migration_log"
  | .status | .back .. => True
  | .statement scope _ _ _ => scope.owner = unit.id
  | .begin | .rollback | .establishIdentity | .readIdentity | .progressGet _ _ => unit.mode = .restartable
  | .commit b => unit.mode = .restartable ∧ (b = .restartableBatch ∨ b = .restartableDdl)
  | .progressSet scope _ value => unit.mode = .restartable ∧ scope.owner = unit.id ∧ value ≠ ""
  | _ => False

theorem userOp_of_txnOp {unit : CapturedUnit} (hm : unit.mode = .restartable) {op : Op} (h : txnOp op = true) :
    UserOp unit op := by
  cases op <;> trivial

theorem Steady.refuse {V : Type} {view : Local → V} {pre : LatchState → Prop} (r : Option TextError) :
    Steady adapter K view pre (refuse r) := by
  cases r
  · exact Steady.pure ()
  · exact Steady.throw _

theorem Steady.liftText {V : Type} {view : Local → V} {pre : LatchState → Prop} (r : Except TextError α) :
    Steady adapter K view pre (liftText r) := by
  cases r
  · exact Steady.throw _
  · exact Steady.pure _

theorem Steady.raiseIf {V : Type} {view : Local → V} {pre : LatchState → Prop} (r : Option Migr8Error) :
    Steady adapter K view pre (raiseIf r) := by
  cases r
  · exact Steady.pure ()
  · exact Steady.throw _

theorem Obeys.exec {c : Config} {op : Op} {operation phase : String} {id : Option String} (hK : K op) :
    Obeys c.adapter K any (exec c op operation phase id) :=
  (Steady.speaks (Steady.perform_open hK)).obeys

theorem Speaks.checkTransactionIdentity (hT : ∀ op, txnOp op = true → K op) (established : Option Identity)
    (id scope outcome : String) : ∀ l c, Later c l.latch → l.latch.state = .open →
      Safe adapter K (checkTransactionIdentity adapter established id scope outcome) (fun r l' c' =>
        Later c' l'.latch ∧ Onward l l' ∧ Told r l'.latch ∧ Named r l'.latch) l c := by
  intro l c hc hl
  cases established with
  | none => exact ⟨hc, Onward.refl _, fun hn => absurd hl hn, Named.of_open hl⟩
  | some i =>
      refine (wp_bind _ _).2 (wp_mono (Speaks.readTransactionIdentity hT l c hc) ?_)
      rintro (e | current) l' c' ⟨hc', hl', ht, hn, -⟩
      · exact ⟨hc', hl', fun _ => ⟨e, rfl⟩, fun hu => ⟨e, rfl, hn.kind hu⟩⟩
      · have ho : l'.latch.state = .open := ht.isOpen
        dsimp only
        split
        · exact ⟨hc', hl', fun h => absurd ho h, Named.of_open ho⟩
        · refine ⟨hc'.trans (Later.set _ _ _ _), hl'.trans (Onward.set _ _ _ _), fun _ => ⟨_, rfl⟩, fun hu => ?_⟩
          simp [RunLatch.latchViolation, RunLatch.set, ho] at hu

section Facade

variable {env : Env} (hK : ∀ op, UserOp env.unit op → K op)

include hK

theorem txn_ops (hm : env.unit.mode = .restartable) (op : Op) (h : txnOp op = true) : K op :=
  hK op (userOp_of_txnOp hm h)

theorem Obeys.admitCall (operation : String) : Obeys env.adapter K any (admitCall env operation) := by
  refine Obeys.checkLatch.bind fun _ => Obeys.bind_steady (Steady.get _) fun b => Obeys.ite ?_ ?_
  · refine Obeys.bind_steady ((Steady.batchTransactionState (hK _ trivial)).weaken fun _ _ => trivial) ?_
    intro state
    cases state
    · exact Obeys.of_steady (Steady.pure ())
    · exact Obeys.failBatch _ _
    · exact Obeys.violate _ _
  · exact Obeys.of_steady (Steady.pure ())

theorem Obeys.prepare (sql operation : String) : Obeys env.adapter K any (prepare env sql operation) :=
  (Obeys.admitCall hK operation).bind fun _ =>
    Obeys.bind_steady (Steady.get _) fun _ => Obeys.of_steady (Steady.refuse _)

theorem Obeys.runStatement (verb : Verb) (sql operation : String) :
    Obeys env.adapter K any (runStatement env verb sql operation) := by
  refine Obeys.bind_steady (Steady.get _) fun f => (Steady.speaks (Steady.perform_open ?_)).obeys
  exact hK _ rfl

theorem Obeys.executemany (sql : String) (sets : Nat) :
    Obeys env.adapter K any (executemany env sql sets) :=
  (Obeys.prepare hK sql _).bind fun _ => Obeys.ite (Obeys.of_steady (Steady.pure _))
    ((Obeys.runStatement hK _ sql _).weaken fun _ _ => trivial)

theorem Obeys.execute (sql : String) : Obeys env.adapter K any (Context.execute env sql) :=
  (Obeys.prepare hK sql _).bind fun _ => (Obeys.runStatement hK _ sql _).weaken fun _ _ => trivial

theorem Obeys.query (sql : String) : Obeys env.adapter K any (query env sql) :=
  (Obeys.prepare hK sql _).bind fun _ => (Obeys.runStatement hK _ sql _).weaken fun _ _ => trivial

theorem Obeys.sqlFile (path : String) : Obeys env.adapter K any (sqlFile env path) :=
  (Obeys.admitCall hK _).bind fun _ =>
    Obeys.of_steady ((Steady.liftText _).bind fun _ => Steady.pure _)

theorem Obeys.getProgress (hm : env.unit.mode = .restartable) (key : String) :
    Obeys env.adapter K any (getProgress env key) := by
  refine (Obeys.admitCall hK _).bind fun _ => Obeys.bind (Obeys.of_steady (Steady.raiseIf _)) fun _ => ?_
  refine Obeys.bind (Obeys.weaken (Obeys.guarded ?_) fun _ _ => trivial) fun _ => Obeys.of_steady (Steady.pure _)
  refine (Obeys.exec ?_).weaken fun _ _ => trivial
  exact hK _ hm

omit hK in
theorem value_ne_empty {value : String} (h : progressValueError value = none) : value ≠ "" := by
  rintro rfl
  simp [progressValueError] at h

theorem Obeys.setProgress (hm : env.unit.mode = .restartable) (key value : String) :
    Obeys env.adapter K any (Context.setProgress env key value) := by
  refine (Obeys.admitCall hK _).bind fun _ => Obeys.bind (Obeys.of_steady (Steady.raiseIf _)) fun _ => ?_
  cases hv : progressValueError value with
  | some e => exact (Obeys.raise (.migr8 e) : Obeys _ _ _ (Proc.throw _))
  | none =>
      refine Obeys.bind_steady (Steady.pure ()) fun _ => Obeys.bind_steady (Steady.get _) fun f => ?_
      refine Obeys.ite (Obeys.bind (Obeys.weaken (Obeys.guarded ?_) fun _ _ => trivial) fun _ =>
        Obeys.of_steady (Steady.pure _)) (Obeys.raise _)
      refine Obeys.bind_steady (Steady.get _) fun _ => Obeys.ite ?_ (Obeys.raise _)
      refine (Obeys.exec ?_).weaken fun _ _ => trivial
      exact hK _ ⟨hm, rfl, value_ne_empty hv⟩

variable (hm : env.unit.mode = .restartable)

include hm

theorem Steady.rollbackBatch : Steady env.adapter K standing known (rollbackBatch env) :=
  (Steady.rollback (txn_ops hK hm _ rfl) (txn_ops hK hm _ rfl)).tryCatch fun _ =>
  Steady.ite (Steady.pure _) (Steady.throw _)

theorem Obeys.commitBatch : Obeys env.adapter K any (commitBatch env) :=
  (Obeys.durableCommit (txn_ops hK hm) (hK _ ⟨hm, .inl rfl⟩)).tryCatch fun _ =>
    Obeys.ite (Obeys.raise _) (Obeys.ite (Obeys.raise _) (Obeys.raise _))

theorem Safe.inspectBatch (established : Option Identity) (failed : Bool) (l : Local) (c : RunLatch)
    (hc : Later c l.latch) (hl : l.latch.state = .open) :
    Safe env.adapter K (inspectBatch env established failed) (fun r l' c' =>
      Later c' l'.latch ∧ Onward l l' ∧ Named r l'.latch) l c := by
  refine (wp_bind _ _).2 (wp_mono (Steady.batchTransactionState (hK _ trivial) l c hc trivial) ?_)
  rintro (e | state) l' c' ⟨hc', hs⟩
  · exact ⟨hc', hs.onward, Named.of_open (hs.isOpen hl)⟩
  · have ho : l'.latch.state = .open := hs.isOpen hl
    cases state with
    | «open» =>
        refine (wp_bind _ _).2 (wp_mono (Speaks.checkTransactionIdentity (txn_ops hK hm) _ _ _ _ l' c' hc' ho) ?_)
        rintro (e | u) l'' c'' ⟨hc'', hl'', ht, hn⟩
        · exact ⟨hc'', hs.onward.trans hl'', fun hu => ⟨e, rfl, hn.kind hu⟩⟩
        · exact ⟨hc'', hs.onward.trans hl'', Named.of_open ht.isOpen⟩
    | rolledBack =>
        refine (wp_bind _ _).2 (wp_mono (Steady.rollbackBatch hK hm l' c' hc' (by rw [known, ho]; decide)) ?_)
        rintro (e | u) l'' c'' ⟨hc'', hs'⟩
        · exact ⟨hc'', (hs.trans hs').onward, Named.of_open (hs'.isOpen ho)⟩
        · have ho' : l''.latch.state = .open := hs'.isOpen ho
          cases failed with
          | true => exact ⟨hc'', (hs.trans hs').onward, Named.of_open ho'⟩
          | false =>
              refine ⟨hc''.trans (Later.set _ _ _ _), (hs.trans hs').onward.trans (Onward.set _ _ _ _), fun hu => ?_⟩
              simp [RunLatch.latchFailure, RunLatch.set, ho'] at hu
    | ended =>
        refine ⟨hc'.trans (Later.set _ _ _ _), hs.onward.trans (Onward.set _ _ _ _), fun hu => ?_⟩
        simp [RunLatch.latchViolation, RunLatch.set, ho] at hu

theorem Quiet.batchCheckFailed (failed : Bool) (e : Exc) (l : Local) (c : RunLatch) (hc : Later c l.latch)
    (hn : l.latch.state = .unknownOutcome → e.kind? = some .unknownOutcome) :
    Safe env.adapter K (batchCheckFailed env failed e) (fun _ l' c' =>
      Later c' l'.latch ∧ Onward l l') l c := by
  unfold Context.batchCheckFailed
  split
  · exact ⟨hc, Onward.refl _⟩
  · exact ⟨hc, Onward.refl _⟩
  · exact ⟨hc, Onward.refl _⟩
  · next hk _ _ =>
      have hu : known l.latch.state := fun h => by simp_all
      refine Quiet.ite (Quiet.bind_steady (Steady.rollbackBatch hK hm) fun _ => Quiet.ite ?_ ?_) ?_ l c hc hu
      · exact Quiet.of_steady (Steady.pure _)
      · exact Quiet.of_obeys (Obeys.failBatch _ _)
      · exact Quiet.of_steady (Steady.throw _)

theorem Quiet.checkBatch (established : Option Identity) (failed : Bool) :
    Quiet env.adapter K isOpen (checkBatch env established failed) := by
  intro l c hc hl
  refine (wp_tryCatch _ _).2 (wp_mono (Safe.inspectBatch hK hm established failed l c hc hl) ?_)
  rintro (e | b) l' c' ⟨hc', hl', hn⟩
  · refine wp_mono (Quiet.batchCheckFailed hK hm failed e l' c' hc' hn.kind) ?_
    rintro r l'' c'' ⟨hc'', hl''⟩
    exact ⟨hc'', hl'.trans hl''⟩
  · exact ⟨hc', hl'⟩

theorem Quiet.settleBatch (failed : Bool) : Quiet env.adapter K any (settleBatch env failed) := by
  intro l c hc _
  refine (wp_bind _ _).2 ((wp_get _).2 ?_)
  dsimp only
  split
  · refine (wp_bind _ _).2 ((wp_onlyIf _ _).2 ?_)
    have htail : ∀ (u : Unit), Quiet env.adapter K any
        (if failed = true ∧ l.latch.state = .batchFailed then pure () else checkLatch) := fun _ =>
      Quiet.ite (Quiet.of_steady (Steady.pure ())) (Quiet.of_obeys Obeys.checkLatch)
    split
    · next hu =>
        refine wp_mono (Steady.rollbackBatch hK hm l c hc ?_) ?_
        · intro h
          simp [RunLatch.unknown, h] at hu
        · rintro (e | u) l' c' ⟨hc', hs⟩
          · exact ⟨hc', hs.onward⟩
          · refine wp_mono (htail () l' c' hc' trivial) ?_
            rintro r l'' c'' ⟨hc'', hl''⟩
            exact ⟨hc'', hs.onward.trans hl''⟩
    · exact htail () l c hc trivial
  · next ho =>
      have hl : l.latch.state = .open := by simpa [RunLatch.latched_iff] using ho
      refine (Quiet.ite ?_ ?_ : Quiet _ _ isOpen _) l c hc hl
      · exact (Quiet.of_steady (Steady.rollbackBatch hK hm)).weaken fun _ h => by rw [known, h]; decide
      · exact (Quiet.of_obeys (Obeys.commitBatch hK hm)).weaken fun _ _ => trivial

theorem Quiet.finishBatch (established : Option Identity) (failed : Bool) :
    Quiet env.adapter K any (finishBatch env established failed) := by
  intro l c hc _
  refine (wp_bind _ _).2 ((wp_get _).2 ?_)
  dsimp only
  split
  · exact Quiet.settleBatch hK hm failed l c hc trivial
  · next ho =>
      have hl : l.latch.state = .open := by simpa [RunLatch.latched_iff] using ho
      refine Quiet.bind (Quiet.checkBatch hK hm established failed) (fun b => ?_) l c hc hl
      cases b
      · exact Quiet.settleBatch hK hm failed
      · exact Quiet.of_steady (Steady.pure ())

theorem Quiet.exitBatch (established : Option Identity) (failed : Bool) :
    Quiet env.adapter K any (exitBatch env established failed) :=
  Quiet.bind_steady (Steady.modify fun _ => ⟨rfl, rfl⟩) fun _ => Quiet.finishBatch hK hm established failed

theorem Obeys.enterBatch (batch : Nat) : Obeys env.adapter K any (enterBatch env batch) := by
  refine Obeys.checkLatch.bind fun _ => Obeys.bind_steady (Steady.get _) fun b => Obeys.ite (Obeys.raise _) ?_
  refine Obeys.weaken (Obeys.bind (Obeys.hasOpenTransaction (txn_ops hK hm _ rfl) (txn_ops hK hm _ rfl)) fun b => ?_)
    fun _ _ => trivial
  refine Obeys.ite (Obeys.raise _)
    (Obeys.weaken (Obeys.bind (Obeys.begin (txn_ops hK hm)) fun _ => ?_) fun _ _ => trivial)
  refine Obeys.bind ?_ fun i => Obeys.of_steady (Steady.modify fun _ => ⟨rfl, rfl⟩)
  intro l c hc _
  refine (wp_tryCatch _ _).2 (wp_mono (Speaks.establishTransactionIdentity (txn_ops hK hm) l c hc) ?_)
  rintro (e | i) l' c' ⟨hc', hl, ht, hn, -⟩
  · refine (wp_bind _ _).2 ((wp_onlyIf _ _).2 ?_)
    split
    · next he =>
        refine wp_mono (Steady.rollbackBatch hK hm l' c' hc' ?_) ?_
        · intro hu
          simp [hn.kind hu] at he
        · rintro (e' | u) l'' c'' ⟨hc'', hs⟩ <;> exact ⟨hc'', hl.trans hs.onward, fun _ => ⟨_, rfl⟩⟩
    · exact ⟨hc', hl, fun _ => ⟨_, rfl⟩⟩
  · exact ⟨hc', hl, ht⟩

theorem Obeys.executeDdl (sql : String) (concurrent : Bool) :
    Obeys env.adapter K isOpen (executeDdl env.adapter ⟨env.unit.id, none⟩ sql concurrent) := by
  have hs : Steady env.adapter K standing isOpen (World.perform (.statement ⟨env.unit.id, none⟩ .ddl sql true)) :=
    Steady.perform_open (hK _ rfl)
  unfold Adapters.executeDdl
  split
  · exact Obeys.of_steady (hs.bind fun _ => Steady.pure _)
  · exact Obeys.of_steady (hs.bind fun _ => Steady.pure _)
  · refine Obeys.weaken (Obeys.bind (Obeys.begin (txn_ops hK hm)) fun _ => ?_) fun _ _ => trivial
    refine Obeys.bind (Obeys.of_steady (hs.tryCatch fun e => ?_)) fun _ =>
      (Obeys.durableCommit (txn_ops hK hm) (hK _ ⟨hm, .inr rfl⟩)).weaken fun _ _ => trivial
    refine (Steady.onlyIf _ ?_).bind fun _ => Steady.throw _
    exact (Steady.rollback (txn_ops hK hm _ rfl) (txn_ops hK hm _ rfl)).weaken fun _ h => by rw [known, h]; decide

theorem Obeys.ddl (sql : String) : Obeys env.adapter K any (ddl env sql) := by
  refine Obeys.checkLatch.bind fun _ => Obeys.bind_steady (Steady.get _) fun b => Obeys.ite (Obeys.raise _) ?_
  refine Obeys.bind (Obeys.of_steady (Steady.refuse _)) fun _ => ?_
  refine Obeys.weaken (Obeys.bind (Obeys.hasOpenTransaction (txn_ops hK hm _ rfl) (txn_ops hK hm _ rfl)) fun b => ?_)
    fun _ _ => trivial
  refine Obeys.ite (Obeys.raise _) (Obeys.weaken (Obeys.guarded ?_) fun _ _ => trivial)
  exact Obeys.executeDdl hK hm sql _

omit hK hm in
/-- What an atomic context refuses is refused without a request. -/
theorem Quiet.onlyRestartable {m : Run α} {e : Exc} (h : env.unit.mode = .restartable → Quiet env.adapter K any m) :
    Quiet env.adapter K any (if env.unit.mode = .restartable then m else Proc.throw e) := by
  split
  · next hm => exact h hm
  · exact Quiet.of_steady (Steady.throw _)

omit hK hm in
theorem Quiet.restartableOnly {m : Run Unit} (h : env.unit.mode = .restartable → Quiet env.adapter K any m) :
    Quiet env.adapter K any (restartableOnly env m) :=
  Quiet.onlyRestartable fun hm => (h hm).bind fun _ => Quiet.of_steady (Steady.pure _)

omit hK hm in
theorem Quiet.onBatch {batch : Nat} {m : Option Identity → Run Unit}
    (hm : ∀ i, Quiet env.adapter K any (m i)) : Quiet env.adapter K any (onBatch batch m) := by
  refine Quiet.bind_steady (Steady.get _) fun found => ?_
  cases found
  · exact Quiet.of_steady (Steady.throw _)
  · exact hm _

omit hm in
theorem Quiet.answer (call : Call) : Quiet env.adapter K any (answer env call) := by
  cases call with
  | execute sql => exact Quiet.of_obeys (Obeys.execute hK sql)
  | executemany sql sets => exact Quiet.of_obeys (Obeys.executemany hK sql sets)
  | query sql => exact Quiet.of_obeys (Obeys.query hK sql)
  | sql path => exact Quiet.of_obeys (Obeys.sqlFile hK path)
  | log message =>
      have hl : Steady env.adapter K standing any (World.perform (.log "migration_log" (some env.unit.id))) :=
        Steady.perform_any (hK _ rfl) rfl rfl nofun
      exact Quiet.of_steady (hl.bind fun _ => Steady.pure _)
  | progressGet key => exact Quiet.onlyRestartable fun hm => Quiet.of_obeys (Obeys.getProgress hK hm key)
  | progressSet key value => exact Quiet.onlyRestartable fun hm => Quiet.of_obeys (Obeys.setProgress hK hm key value)
  | transaction =>
      refine Quiet.onlyRestartable fun _ => Quiet.of_obeys (Obeys.checkLatch.bind fun _ => Obeys.of_steady ?_)
      refine (Steady.get _).bind fun _ => Steady.bind ?_ fun _ => Steady.pure _
      exact Steady.modify fun _ => ⟨rfl, rfl⟩
  | enter batch =>
      exact Quiet.restartableOnly fun hm => Quiet.onBatch fun _ => Quiet.of_obeys (Obeys.enterBatch hK hm batch)
  | exit batch failed =>
      exact Quiet.restartableOnly fun hm => Quiet.onBatch fun i => Quiet.exitBatch hK hm i failed
  | ddl sql => exact Quiet.restartableOnly fun hm => Quiet.of_obeys (Obeys.ddl hK hm sql)

omit hm in
/-- Whatever migration code does, the latch is set at most once and the requests
made on its behalf respect it. -/
theorem Quiet.runProgram (program : Program) : Quiet env.adapter K any (runProgram env program) := by
  induction program with
  | ret value => exact Quiet.of_steady (Steady.pure _)
  | raise e => exact Quiet.of_steady (Steady.throw _)
  | call call next ih =>
      refine (Quiet.answer hK call).attempt.bind fun r => Quiet.bind_steady ?_ fun _ => ih r
      exact Steady.perform_any (hK _ trivial) rfl rfl nofun

end Facade

section Prelude

def serviceOp : Op → Bool
  | .log _ none | .connect | .acquireLock | .prepareStorage | .objectsPresent | .definitionProblems _ | .countMeta
  | .readMarker | .countHistory | .countProgress | .createObject _ | .status | .begin
  | .commit .metadataObjectCreated | .commit .initializationComplete | .rollback | .establishIdentity
  | .readIdentity | .decode | .closeRollback | .releaseLock | .closeConnection | .discardConnection => true
  | .insertMarker row => row.layoutVersion == layoutVersion
  | _ => false

theorem serviceOp_of_txnOp {op : Op} (h : txnOp op = true) : serviceOp op = true := by
  cases op <;> trivial

variable {c : Config}

theorem Speaks.exec {op : Op} {operation phase : String} {id : Option String} (hop : K op) :
    Speaks c.adapter K (exec c op operation phase id) :=
  Steady.speaks (Steady.perform_open hop)

section Marker

def markerOp : Op → Bool
  | .countMeta | .readMarker | .decode => true
  | _ => false

variable (hM : ∀ op, markerOp op = true → K op)

include hM

theorem Safe.readMeta (l : Local) (cl : RunLatch) (hc : Later cl l.latch) (hl : l.latch.state = .open) :
    Safe c.adapter K (readMeta c) (fun r l' c' => Later c' l'.latch ∧ Onward l l' ∧ Told r l'.latch ∧
      Named r l'.latch ∧ (l'.latch.state = .open ∨ l'.latch.state = .unknownOutcome)) l cl := by
  refine (wp_bind _ _).2 (wp_mono (Speaks.exec (hM _ rfl) l cl hc) ?_)
  rintro (e | count) l₁ c₁ ⟨hc₁, hl₁, ht, hn, ho⟩
  · exact ⟨hc₁, hl₁, fun _ => ⟨e, rfl⟩, fun hu => ⟨e, rfl, hn.kind hu⟩, ho hl⟩
  · refine (wp_bind _ _).2 (wp_mono (Speaks.exec (hM _ rfl) l₁ c₁ hc₁) ?_)
    rintro (e | rows) l₂ c₂ ⟨hc₂, hl₂, ht', hn', ho'⟩
    · exact ⟨hc₂, hl₁.trans hl₂, fun _ => ⟨e, rfl⟩, fun hu => ⟨e, rfl, hn'.kind hu⟩, ho' ht.isOpen⟩
    · have h₂ : l₂.latch.state = .open := ht'.isOpen
      cases rows with
      | nil => exact ⟨hc₂, hl₁.trans hl₂, fun h => absurd h₂ h, Named.of_open h₂, .inl h₂⟩
      | cons row rows =>
          have hd : Steady c.adapter K standing isOpen (do
              World.perform .decode
              return (some row, count)) :=
            (Steady.perform_open (hM .decode rfl)).bind fun _ => Steady.pure _
          refine wp_mono (hd l₂ c₂ hc₂ h₂) ?_
          rintro r l₃ c₃ ⟨hc₃, hs⟩
          have h₃ : l₃.latch.state = .open := hs.isOpen h₂
          exact ⟨hc₃, (hl₁.trans hl₂).trans hs.onward, fun h => absurd h₃ h, Named.of_open h₃, .inl h₃⟩

theorem Obeys.readMeta : Obeys c.adapter K isOpen (readMeta c) :=
  fun l cl hc hl => wp_mono (Safe.readMeta hM l cl hc hl) fun _ _ _ h => ⟨h.1, h.2.1, h.2.2.1⟩

end Marker

theorem serviceOp_of_markerOp {op : Op} (h : markerOp op = true) : serviceOp op = true := by
  cases op <;> trivial

variable (hK : ∀ op, serviceOp op = true → K op)

include hK

theorem service_txn_ops (op : Op) (h : txnOp op = true) : K op := hK op (serviceOp_of_txnOp h)

/-- Only a driver error is turned into a finding, and that never sets the latch. -/
theorem Obeys.inspectMarker (present : List ObjectName) (problems : List String) :
    Obeys c.adapter K isOpen (inspectMarker c present problems) := by
  refine Obeys.ite ?_ (Obeys.of_steady (Steady.pure _))
  intro l cl hc hl
  refine (wp_bind _ _).2
    ((wp_attempt _).2 (wp_mono (Safe.readMeta (fun op h => hK op (serviceOp_of_markerOp h)) l cl hc hl) ?_))
  rintro r l' c' ⟨hc', hl', ht, hn, ho⟩
  match r with
  | .error e =>
      dsimp only
      split
      · next hd =>
          refine ⟨hc', hl', fun h => ?_⟩
          have hu := ho.resolve_left h
          have hk := hn.kind hu
          cases e <;> simp_all [isDriverError, Exc.kind?]
      · exact ⟨hc', hl', fun _ => ⟨_, rfl⟩⟩
  | .ok (some row, rows) => exact ⟨hc', hl', fun h => absurd ht.isOpen h⟩
  | .ok (none, rows) => exact ⟨hc', hl', fun h => absurd ht.isOpen h⟩

omit hK in
theorem Obeys.countOf {table : ObjectName} {count : Run Nat} {present : List ObjectName}
    (hm : Obeys c.adapter K any count) : Obeys c.adapter K isOpen (countOf table count present) :=
  Obeys.ite ((hm.weaken fun _ _ => trivial).bind fun _ => Obeys.of_steady (Steady.pure _))
    (Obeys.of_steady (Steady.pure _))

theorem Obeys.inspectMetadata : Obeys c.adapter K any (inspectMetadata c) := by
  refine (Speaks.exec (hK _ rfl)).obeys.bind fun present => ?_
  refine Obeys.weaken (Obeys.bind (Speaks.exec (hK _ rfl)).obeys fun problems => ?_) fun _ _ => trivial
  refine (Obeys.inspectMarker hK present problems).bind fun found => ?_
  refine (Obeys.countOf (Speaks.exec (hK _ rfl)).obeys).bind fun history => ?_
  refine (Obeys.countOf (Speaks.exec (hK _ rfl)).obeys).bind fun progress => ?_
  exact Obeys.of_steady (Steady.pure _)

theorem Obeys.createMetadataObject (name : ObjectName) :
    Obeys c.adapter K isOpen (createMetadataObject c name) := by
  have hp : Steady c.adapter K standing isOpen (World.perform (.createObject name)) := Steady.perform_open (hK _ rfl)
  unfold Metadata.createMetadataObject
  split
  · next ha =>
      rw [ha] at hp ⊢
      exact (Steady.speaks hp).obeys.weaken fun _ _ => trivial
  · refine Obeys.weaken (Obeys.bind (Obeys.begin (service_txn_ops hK)) fun _ => ?_) fun _ _ => trivial
    refine (Obeys.of_steady hp).bind fun _ => ?_
    exact (Obeys.durableCommit (service_txn_ops hK) (hK _ rfl)).weaken fun _ _ => trivial

theorem Obeys.createMissing (present names : List ObjectName) :
    Obeys c.adapter K isOpen (createMissing c present names) := by
  induction names with
  | nil => exact Obeys.of_steady (Steady.pure ())
  | cons name names ih =>
      refine Obeys.ite ih (Obeys.bind ?_ fun _ => ih)
      exact (Obeys.guarded (Obeys.createMetadataObject hK name)).weaken fun _ _ => trivial

theorem Obeys.initializeMetadata : Obeys c.adapter K any (initializeMetadata c) := by
  refine (Speaks.exec (hK _ rfl)).obeys.bind fun present => (Obeys.createMissing hK present _).bind fun _ => ?_
  refine Obeys.weaken (Obeys.bind (Speaks.exec (hK _ rfl)).obeys fun present => ?_) fun _ _ => trivial
  refine Obeys.weaken (Obeys.bind (Speaks.exec (hK _ rfl)).obeys fun problems => ?_) fun _ _ => trivial
  refine Obeys.ite (Obeys.raise _) (Obeys.weaken (Obeys.bind (Obeys.begin (service_txn_ops hK)) fun _ => ?_)
    fun _ _ => trivial)
  refine Obeys.weaken (Obeys.bind (Speaks.exec (hK _ rfl)).obeys fun _ => ?_) fun _ _ => trivial
  exact (Obeys.durableCommit (service_txn_ops hK) (hK _ rfl)).weaken fun _ _ => trivial

end Prelude

end Migr8.Obedience
