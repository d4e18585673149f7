import Migr8.Obedience

namespace Migr8.EngineObedience

open Errors Model Latch Driver Database World Adapters Metadata Context Engine Rules Discipline Obedience
open Lib.Process

variable {adapter : Adapter} {K : Op → Prop} {α : Type}

section Snapshot

def snapshotOp : Op → Bool
  | .status | .snapshotBegin | .snapshotCommit | .readHistory | .readProgress | .readSnapshot | .countMeta | .readMarker
  | .decode => true
  | _ => false

theorem snapshotOp_of_markerOp {op : Op} (h : markerOp op = true) : snapshotOp op = true := by
  cases op <;> trivial

variable {c : Config} (hS : ∀ op, snapshotOp op = true → K op)

include hS

theorem snapshot_marker_ops (op : Op) (h : markerOp op = true) : K op := hS op (snapshotOp_of_markerOp h)

theorem Obeys.readRowsPostgres : Obeys c.adapter K isOpen (readRowsPostgres c) := by
  have he {op : Op} (h : K op) : Obeys c.adapter K isOpen (exec c op "metadata read" "metadata") :=
    (Obeys.exec h).weaken fun _ _ => trivial
  have hd : Obeys c.adapter K isOpen (World.perform .decode) := Obeys.of_steady (Steady.perform_open (hS _ rfl))
  refine (he (hS _ rfl)).bind fun history => hd.bind fun _ => (he (hS _ rfl)).bind fun progress => ?_
  exact hd.bind fun _ => (Obeys.readMeta (snapshot_marker_ops hS)).bind fun _ => Obeys.of_steady (Steady.pure _)

theorem Obeys.readRowsSqlite : Obeys c.adapter K isOpen (readRowsSqlite c) := by
  have he {op : Op} (h : K op) : Obeys c.adapter K isOpen (World.perform op) :=
    Obeys.of_steady (Steady.perform_open h)
  refine (he (hS _ rfl)).bind fun history => (he (hS _ rfl)).bind fun _ => ?_
  refine (he (hS _ rfl)).bind fun progress => (he (hS _ rfl)).bind fun _ => ?_
  exact (Obeys.readMeta (snapshot_marker_ops hS)).bind fun _ => Obeys.of_steady (Steady.pure _)

/-- The COMMIT in the `finally` clause is sent whatever the latch says. -/
theorem Obeys.readSnapshotSqlite (ha : c.adapter = .sqlite) :
    Obeys c.adapter K isOpen (readSnapshotSqlite c) := by
  have hp {op : Op} (h : K op) : Steady c.adapter K standing isOpen (World.perform op) := Steady.perform_open h
  have he : ∀ l : Local, Same standing l { l with txnEpoch := l.txnEpoch + 1 } := fun _ => ⟨rfl, rfl⟩
  refine Obeys.bind_steady (hp (hS _ rfl)) fun status => Obeys.bind_steady ?_ fun _ => ?_
  · exact Steady.onlyIf _ ((hp (hS _ rfl)).bind fun _ => Steady.modify he)
  · have hend : Steady c.adapter K standing any (onlyIf (status == .idle) do
        let _ ← World.perform .snapshotCommit
        advanceEpoch) := by
      refine Steady.onlyIf _ (Steady.bind ?_ fun _ => Steady.modify he)
      exact Steady.perform fun _ _ hc _ => ⟨hc, fun _ => .inr ⟨ha, rfl⟩, fun _ => rfl, hS _ rfl⟩
    intro l cl hc hl
    refine (wp_finally _ _).2 (wp_mono (Obeys.readRowsSqlite hS l cl hc hl) ?_)
    rintro r l' c' ⟨hc', hl', ht⟩
    refine wp_mono (hend l' c' hc' trivial) ?_
    rintro (e | u) l'' c'' ⟨hc'', hs⟩
    · exact ⟨hc'', hl'.trans hs.onward, fun _ => ⟨e, rfl⟩⟩
    · exact ⟨hc'', hl'.trans hs.onward, hs.latch ▸ ht⟩

theorem Obeys.readSnapshotPostgres : Obeys c.adapter K isOpen (readSnapshotPostgres c) := by
  have hp {op : Op} (h : K op) : Steady c.adapter K standing isOpen (World.perform op) := Steady.perform_open h
  have hend : Steady c.adapter K standing isOpen endSnapshotPostgres := (hp (hS _ rfl)).bind fun _ => Steady.pure _
  refine Obeys.bind_steady (hp (hS _ rfl)) fun status => Obeys.bind_steady ?_ fun _ => ?_
  · exact Steady.onlyIf _ (hp (hS _ rfl))
  · refine ((Obeys.readRowsPostgres hS).tryCatch fun e => ?_).bind fun snapshot => ?_
    · intro l cl hc _
      refine (wp_bind _ _).2 ((wp_get _).2 ?_)
      by_cases hl : l.latch.state = .open
      · exact Obeys.bind_steady (Steady.onlyIf _ hend) (fun _ => Obeys.raise e) l cl hc hl
      · have hu : sessionUnusableAfter e l = true := by
          simp [sessionUnusableAfter, RunLatch.latched, hl]
        simp only [hu, Bool.not_true, Bool.and_false]
        exact ⟨hc, Onward.refl _, fun _ => ⟨_, rfl⟩⟩
    · exact Obeys.bind_steady (Steady.onlyIf _ hend) fun _ => Obeys.of_steady (Steady.pure _)

theorem Obeys.readSnapshot : Obeys c.adapter K any (readSnapshot c) := by
  have hp {op : Op} (h : K op) : Steady c.adapter K standing isOpen (World.perform op) := Steady.perform_open h
  refine Obeys.guarded ?_
  split
  · next ha => exact Obeys.readSnapshotSqlite hS ha
  · exact Obeys.readSnapshotPostgres hS
  · refine Obeys.of_steady ((hp (hS .readSnapshot rfl)).bind fun found => (hp (hS .decode rfl)).bind fun _ => ?_)
    exact Steady.ite (Steady.throw _) (Steady.pure _)

end Snapshot

section Execution

variable {input : Input} {unit : CapturedUnit}

theorem Steady.admitSqlEntry {V : Type} {view : Local → V} {pre : LatchState → Prop} (phase : String) :
    Steady adapter K view pre (admitSqlEntry input unit phase) := by
  refine (Steady.liftText _).bind fun sql => Steady.ite ?_ (Steady.ite ?_ ?_)
  all_goals exact (Steady.refuse _).bind fun _ => Steady.pure _

/-- The entry is read without a request, and its category follows the mode. -/
theorem admitSqlEntry_cases (input : Input) (unit : CapturedUnit) (phase : String) :
    (∃ e, Engine.admitSqlEntry input unit phase = Proc.throw e) ∨
      ∃ admitted, Engine.admitSqlEntry input unit phase = Pure.pure admitted ∧
        (admitted.category = .atomicStatement ↔ unit.mode = .atomic) := by
  unfold Engine.admitSqlEntry
  cases input.texts.readSqlEntry unit phase with
  | error e => exact .inl ⟨e.exc, rfl⟩
  | ok sql =>
      simp only [liftText, Proc.pure_bind]
      by_cases hm : unit.mode = .atomic
      · simp only [hm, if_true]
        cases input.texts.admitStatement sql .atomic false with
        | some e => exact .inl ⟨e.exc, rfl⟩
        | none => exact .inr ⟨⟨sql, .atomicStatement⟩, rfl, by simp⟩
      · simp only [hm, if_false]
        by_cases hp : input.texts.isProcedural sql = true
        · simp only [hp, if_true]
          cases input.texts.admitStatement sql .restartable false with
          | some e => exact .inl ⟨e.exc, rfl⟩
          | none => exact .inr ⟨⟨sql, .restartableProcedural⟩, rfl, by simp⟩
        · simp only [hp, if_false, Bool.false_eq_true]
          cases input.texts.admitDdl sql with
          | some e => exact .inl ⟨e.exc, rfl⟩
          | none => exact .inr ⟨⟨sql, .restartableDdl⟩, rfl, by simp⟩

theorem Steady.checkResult {V : Type} {view : Local → V} {pre : LatchState → Prop} (value : Returned) (id : String) :
    Steady adapter K view pre (checkResult value id) := by
  cases value
  · exact Steady.pure ()
  · exact Steady.throw _
  · exact Steady.throw _

section Entry

variable (hK : ∀ op, UserOp unit op → K op)

include hK

theorem Obeys.invokeSql : Obeys input.adapter K isOpen (invokeSql input unit) := by
  have hs (sql : String) (b : Bool) : Obeys input.adapter K isOpen
      (World.perform (.statement ⟨unit.id, none⟩ .execute sql b)) :=
    Obeys.of_steady (Steady.perform_open (hK _ rfl))
  unfold Engine.invokeSql
  rcases admitSqlEntry_cases input unit "migration_execution" with ⟨e, he⟩ | ⟨admitted, he, hcat⟩
  · rw [he, Proc.throw_bind]
    exact Obeys.raise e
  · rw [he, Proc.pure_bind]
    dsimp only
    split
    · exact Obeys.bind ((Obeys.guarded (hs _ _)).weaken fun _ _ => trivial) fun _ => Obeys.of_steady (Steady.pure _)
    · exact Obeys.bind ((Obeys.guarded (hs _ _)).weaken fun _ _ => trivial) fun _ => Obeys.of_steady (Steady.pure _)
    · next hd =>
        have hm : unit.mode = .restartable := by
          cases hu : unit.mode
          · rw [hd] at hcat
            cases hcat.2 hu
          · rfl
        have ht : ∀ op, txnOp op = true → K op := fun op h => hK op (userOp_of_txnOp hm h)
        refine Obeys.weaken (Obeys.bind (Obeys.hasOpenTransaction (ht _ rfl) (ht _ rfl)) fun b => ?_) fun _ _ => trivial
        refine Obeys.ite (Obeys.raise _) (Obeys.weaken (Obeys.guarded ?_) fun _ _ => trivial)
        have hu : ∀ op, UserOp (input.env unit).unit op → K op := hK
        exact Obeys.executeDdl hu hm _ _

theorem Quiet.invokePython (attempt : Option Int) : Quiet input.adapter K any (invokePython input unit attempt) := by
  unfold Engine.invokePython
  split
  · exact Quiet.of_steady (Steady.throw _)
  · have hu : ∀ op, UserOp (input.env unit).unit op → K op := hK
    exact (Quiet.runProgram hu _).bind fun _ => Quiet.of_steady (Steady.checkResult _ _)

theorem Quiet.invokeEntry (attempt : Option Int) :
    Quiet input.adapter K isOpen (invokeEntry input unit attempt) := by
  unfold Engine.invokeEntry
  split
  · exact Quiet.of_obeys (Obeys.invokeSql hK)
  · exact (Quiet.invokePython hK attempt).weaken fun _ _ => trivial

theorem Quiet.runEntry (attempt : Option Int) (he : ∀ r, K (.ended unit.id r)) :
    Quiet input.adapter K isOpen (runEntry input unit attempt) := by
  refine (Quiet.invokeEntry hK attempt).attempt.bind fun r => ?_
  refine Quiet.bind_steady (Steady.perform_any (he r) rfl rfl nofun) fun _ => ?_
  cases r
  · exact Quiet.of_steady (Steady.throw _)
  · exact Quiet.of_steady (Steady.pure ())

theorem Quiet.invoke (attempt : Option Int) (hi : K (.invoke unit.id attempt))
    (he : ∀ r, K (.ended unit.id r)) : Quiet input.adapter K isOpen (invoke input unit attempt) := by
  refine Quiet.bind_steady (Steady.modify fun _ => ⟨rfl, rfl⟩) fun _ => ?_
  exact Quiet.bind_steady (Steady.perform_open hi) fun _ => Quiet.runEntry hK attempt he

end Entry

section Units

def StepOp (unit : CapturedUnit) : Op → Prop
  | .status | .begin | .rollback | .establishIdentity | .readIdentity | .checkRequired _ => True
  | .commit b => b = .atomicCompletion ∨ b = .restartableAdmission ∨ b = .restartableCompletion
  | .insertHistory i => i.migrationId = unit.id
  | .updateAttempt id .. | .completeActive id _ | .deleteProgress id => id = unit.id
  | _ => False

/-- What running `unit` can make the engine ask for. -/
def UnitOp (unit : CapturedUnit) (op : Op) : Prop :=
  StepOp unit op ∨ UserOp unit op ∨
    match op with
    | .invoke id _ | .ended id _ => id = unit.id
    | .log event id => event = "admitted" ∧ id = some unit.id
    | _ => False

theorem stepOp_of_txnOp {op : Op} (h : txnOp op = true) : StepOp unit op := by
  cases op <;> trivial

section Handlers

variable (hs : K .status) (hr : K .rollback)

include hs hr

omit unit in
theorem Steady.rollbackQuietly : Steady adapter K standing any (rollbackQuietly adapter) := by
  intro l c hc _
  refine (wp_bind _ _).2 ((wp_get _).2 ?_)
  dsimp only
  split
  · exact ⟨hc, Same.refl _⟩
  · next hu =>
      have hr : Steady adapter K standing known ((rollback adapter).tryCatch fun e =>
          if e.isException then Pure.pure () else Proc.throw e) :=
        (Steady.rollback hs hr).tryCatch fun _ => Steady.ite (Steady.pure _) (Steady.throw _)
      refine hr l c hc fun h => hu ?_
      simp [RunLatch.unknown, h]

omit hs hr in
theorem Obeys.latchedOr (e : Migr8Error) : Obeys adapter K any (latchedOr e : Run α) :=
  Obeys.bind_steady (Steady.get _) fun _ => Obeys.raise _

theorem Obeys.handleAtomic (e : Exc) : Obeys input.adapter K any (handleAtomic input unit e) := by
  have hr : Steady input.adapter K standing any (rollbackQuietly input.adapter) := Steady.rollbackQuietly hs hr
  unfold Engine.handleAtomic
  split
  · exact Obeys.raise _
  · exact Obeys.bind_steady hr fun _ => Obeys.raise _
  · exact Obeys.bind_steady hr fun _ => Obeys.raise _
  · exact Obeys.ite (Obeys.bind_steady hr fun _ => Obeys.latchedOr _) (Obeys.raise _)

variable (hi : K .readIdentity)

include hi

theorem Quiet.postReturnCleanup : Quiet input.adapter K any (postReturnCleanup input) := by
  have hr : Quiet input.adapter K any (rollbackQuietly input.adapter) :=
    Quiet.of_steady (Steady.rollbackQuietly hs hr)
  refine Quiet.bind_steady (Steady.get _) fun latch => Quiet.ite (Quiet.of_steady (Steady.pure ())) ?_
  refine Quiet.ite hr (Quiet.bind (Quiet.of_obeys (Obeys.hasOpenTransaction hs hi)) fun b => ?_)
  cases b
  · exact Quiet.of_steady (Steady.pure ())
  · exact hr

theorem Obeys.handleRestartable (e : Exc) : Obeys input.adapter K any (handleRestartable input unit e) := by
  have hc : Quiet input.adapter K any (postReturnCleanup input) := Quiet.postReturnCleanup hs hr hi
  unfold Engine.handleRestartable
  split
  · exact Obeys.raise _
  · exact hc.bind_obeys fun _ => Obeys.raise _
  · exact hc.bind_obeys fun _ => Obeys.raise _
  · exact Obeys.ite (hc.bind_obeys fun _ => Obeys.latchedOr _) (Obeys.raise _)

omit hr in
theorem Obeys.transactionLeftOpen : Obeys input.adapter K isOpen (transactionLeftOpen input) :=
  Obeys.bind_steady (Steady.get _) fun _ => Obeys.ite (Obeys.of_steady (Steady.pure _))
    ((Obeys.hasOpenTransaction hs hi).weaken fun _ _ => trivial)

end Handlers

theorem Obeys.checkRequiredObjects {required : List RequiredObject} (hR : K (.checkRequired required)) :
    Obeys adapter K isOpen (checkRequiredObjects adapter required) := by
  refine Obeys.ite (Obeys.of_steady (Steady.pure _)) (Obeys.weaken (Obeys.guarded ?_) fun _ _ => trivial)
  have hp : Steady adapter K standing isOpen (World.perform (.checkRequired required)) := Steady.perform_open hR
  refine Obeys.of_steady ?_
  cases adapter
  case oracle => exact hp.tryCatch fun _ => Steady.ite (Steady.pure _) (Steady.throw _)
  all_goals exact Steady.pure _

theorem Obeys.requireValid (hR : K (.checkRequired unit.required)) :
    Obeys input.adapter K isOpen (requireValid input unit) := by
  refine (Obeys.checkRequiredObjects hR).bind fun validity => Obeys.bind_steady ?_ fun _ => ?_
  · exact Steady.modify fun _ => ⟨rfl, rfl⟩
  · exact Obeys.ite (Obeys.of_steady (Steady.pure ())) (Obeys.raise _)

theorem Obeys.checkTransactionIdentity (hT : ∀ op, txnOp op = true → K op) (identity : Identity)
    (id scope outcome : String) :
    Obeys input.adapter K isOpen (checkTransactionIdentity input.adapter (some identity) id scope outcome) := by
  intro l c hc hl
  refine wp_mono (Speaks.checkTransactionIdentity hT (some identity) id scope outcome l c hc hl) ?_
  exact fun _ _ _ h => ⟨h.1, h.2.1, h.2.2.1⟩

theorem Obeys.metadataExecuteInTransaction (hT : ∀ op, txnOp op = true → K op) {c : Config} {update : Run Nat}
    {what : String} (hu : Obeys c.adapter K any update) :
    Obeys c.adapter K any (metadataExecuteInTransaction c update what) := by
  refine (Obeys.begin hT).bind fun _ => (hu.weaken fun _ _ => trivial).bind fun affected => ?_
  refine Obeys.ite (Obeys.of_steady (Steady.pure ())) (Obeys.bind_steady ?_ fun _ => Obeys.raise _)
  exact (Steady.rollback (hT _ rfl) (hT _ rfl)).weaken fun _ h => by rw [known, h]; decide

section Steps

variable (hT : ∀ op, StepOp unit op → K op)

include hT

theorem step_txn_ops (op : Op) (h : txnOp op = true) : K op := hT op (stepOp_of_txnOp h)

theorem Obeys.admitUnit (active : Option HistoryRow) : Obeys input.adapter K any (admitUnit input unit active) := by
  have ht := step_txn_ops hT
  have hd : Obeys input.config.adapter K isOpen
      (durableCommit input.config.adapter .restartableAdmission (some unit.id)) :=
    (Obeys.durableCommit ht (hT _ (.inr (.inl rfl)))).weaken fun _ _ => trivial
  cases active with
  | none =>
      refine Obeys.bind ?_ fun _ => Obeys.of_steady (Steady.pure _)
      refine (Obeys.begin ht).bind fun _ => Obeys.bind ?_ fun _ => hd
      exact (Obeys.exec (hT (.insertHistory _) (by rfl))).weaken fun _ _ => trivial
  | some row =>
      refine Obeys.bind ?_ fun _ => Obeys.of_steady (Steady.pure _)
      exact (Obeys.metadataExecuteInTransaction ht (Obeys.exec (hT (.updateAttempt _ _ _ _) rfl))).bind fun _ => hd

theorem Obeys.completeActiveRow {c : Config} : Obeys c.adapter K any (completeActiveRow c unit.id) := by
  have ht := step_txn_ops hT
  refine (Obeys.metadataExecuteInTransaction ht (Obeys.exec (hT (.completeActive _ _) rfl))).bind fun _ => ?_
  refine Obeys.bind ((Obeys.exec (hT (.deleteProgress _) rfl)).weaken fun _ _ => trivial) fun _ => ?_
  exact (Obeys.durableCommit ht (hT _ (.inr (.inr rfl)))).weaken fun _ _ => trivial

end Steps

variable (hU : ∀ op, UnitOp unit op → K op)

include hU

theorem unit_step_ops (op : Op) (h : StepOp unit op) : K op := hU op (.inl h)

theorem unit_user_ops (op : Op) (h : UserOp unit op) : K op := hU op (.inr (.inl h))

theorem Obeys.atomicBody (identity : Identity) :
    Obeys input.adapter K isOpen (atomicBody input unit identity) := by
  have hT := unit_step_ops hU
  have hi : Quiet input.adapter K isOpen (invoke input unit none) :=
    Quiet.invoke (unit_user_ops hU) none (hU _ (.inr (.inr rfl))) fun _ => hU _ (.inr (.inr rfl))
  refine hi.bind_obeys fun _ => Obeys.checkLatch.bind fun _ => ?_
  refine (Obeys.requireValid (hT _ trivial)).bind fun _ => ?_
  refine (Obeys.checkTransactionIdentity (step_txn_ops hT) identity _ _ _).bind fun _ => ?_
  exact (Obeys.exec (hT (.insertHistory _) (by rfl))).weaken fun _ _ => trivial

theorem Obeys.runAtomic : Obeys input.adapter K any (runAtomic input unit) := by
  have hT := unit_step_ops hU
  have ht := step_txn_ops hT
  refine (Obeys.begin ht).bind fun _ => ?_
  refine Obeys.weaken (Obeys.bind (Speaks.establishTransactionIdentity ht).obeys fun i => ?_) fun _ _ => trivial
  refine ((Obeys.atomicBody hU i).tryCatch (Obeys.handleAtomic (hT _ trivial) (hT _ trivial))).bind fun _ => ?_
  exact (Obeys.durableCommit ht (hT _ (.inl rfl))).weaken fun _ _ => trivial

/-- What follows an acknowledged admission. -/
theorem Obeys.admitted (attempt : Option Int) : Obeys input.adapter K isOpen (do
    perform (.log "admitted" (some unit.id))
    (invoke input unit attempt).tryCatch (Engine.handleRestartable input unit)
    Adapters.checkLatch
    if ← Engine.transactionLeftOpen input then do
      Engine.rollbackQuietly input.adapter
      World.raise (leftOpen unit)
    else do
      Engine.requireValid input unit
      Adapters.completeActiveRow input.config unit.id) := by
  have hT := unit_step_ops hU
  refine Obeys.bind_steady (Steady.perform_open (hU _ (.inr (.inr ⟨rfl, rfl⟩)))) fun _ => ?_
  have hi : Quiet input.adapter K isOpen
      ((invoke input unit attempt).tryCatch (Engine.handleRestartable input unit)) :=
    Quiet.tryCatch (Quiet.invoke (unit_user_ops hU) attempt (hU _ (.inr (.inr rfl))) fun _ => hU _ (.inr (.inr rfl)))
      fun e => Quiet.of_obeys (Obeys.handleRestartable (hT _ trivial) (hT _ trivial) (hT _ trivial) e)
  refine hi.bind_obeys fun _ => Obeys.checkLatch.bind fun _ => ?_
  refine (Obeys.transactionLeftOpen (hT _ trivial) (hT _ trivial)).bind fun b => ?_
  refine Obeys.ite (Obeys.bind_steady ?_ fun _ => Obeys.raise _)
    ((Obeys.requireValid (hT _ trivial)).bind fun _ => ?_)
  · exact (Steady.rollbackQuietly (hT _ trivial) (hT _ trivial)).weaken fun _ _ => trivial
  · exact (Obeys.completeActiveRow hT).weaken fun _ _ => trivial

theorem Obeys.runRestartable (active : Option HistoryRow) :
    Obeys input.adapter K any (runRestartable input unit active) :=
  (Obeys.admitUnit (unit_step_ops hU) active).bind fun attempt => Obeys.admitted hU attempt

theorem Obeys.runUnit (active : Option HistoryRow) : Obeys input.adapter K isOpen (runUnit input active unit) := by
  unfold Engine.runUnit
  split
  · exact (Obeys.runAtomic hU).weaken fun _ _ => trivial
  · exact (Obeys.runRestartable hU _).weaken fun _ _ => trivial

omit hU unit in
theorem Obeys.execute (active : Option HistoryRow) (units : List CapturedUnit)
    (hU : ∀ unit ∈ units, ∀ op, UnitOp unit op → K op) (hl : ∀ event id, K (.log event id)) :
    Obeys input.adapter K isOpen (Engine.execute input active units) := by
  induction units with
  | nil => exact Obeys.of_steady (Steady.pure ())
  | cons unit units ih =>
      refine Obeys.bind_steady (Steady.perform_open (hl _ _)) fun _ => ?_
      refine (Obeys.runUnit (hU unit List.mem_cons_self) active).bind fun _ => ?_
      refine Obeys.bind_steady (Steady.modify fun _ => ⟨rfl, rfl⟩) fun _ => ?_
      refine Obeys.bind_steady (Steady.perform_open (hl _ _)) fun _ => ih fun u hu => ?_
      exact hU u (List.mem_cons_of_mem _ hu)

end Units

end Execution

end Migr8.EngineObedience
