import Migr8.Execution

namespace Migr8.Keeping

open Errors Model Latch Driver Database World Adapters Context Engine Rules Discipline Obedience EngineObedience
open Teardown RunObedience Shape Frames Plans Lib.Process

variable {α β : Type} {adapter : Adapter} {input : Input} {unit : CapturedUnit} {A : Request → Session → Outcome → Prop}
  {I : Request → Session → Prop}
  {J : Local → Session → Prop} {K : Op → Prop}

/-- The requests of `K` keep `J`, which sees nothing of the process but the context
it has handed out, and show `I`. -/
structure Kept (adapter : Adapter) (A : Request → Session → Outcome → Prop) (I : Request → Session → Prop)
    (J : Local → Session → Prop) (K : Op → Prop) : Prop where
  seen : ∀ op l s, K op → J l s → I ⟨op, l⟩ s
  step : ∀ op l s o, K op → A ⟨op, l⟩ s o → J l s → J l (serve adapter ⟨op, l⟩ o s).2
  state : ∀ l l' s, l'.facade = l.facade → J l s → J l' s

theorem Kept.weaken {K' : Op → Prop} (h : Kept adapter A I J K) (hK : ∀ op, K' op → K op) : Kept adapter A I J K' :=
  ⟨fun op l s hop => h.seen op l s (hK op hop), fun op l s o hop => h.step op l s o (hK op hop), h.state⟩

section Transactions

variable (h : Kept adapter A I J K)

include h

theorem Kept.perform {op : Op} (hop : K op) : Maintains (serve adapter) A I J (perform op) :=
  .request fun l s hs => ⟨h.seen op l s hop hs, fun o ho => h.step op l s o hop ho hs⟩

theorem Kept.modify {g : Local → Local} (hg : ∀ l, (g l).facade = l.facade) :
    Maintains (serve adapter) A I J (World.modify g) := .modify fun l s hs => h.state l (g l) s (hg l) hs

omit h in
theorem maintains_onlyIf {m : Run Unit} (b : Bool) (hm : Maintains (serve adapter) A I J m) :
    Maintains (serve adapter) A I J (onlyIf b m) := by
  cases b with
  | false => exact .pure ()
  | true => exact hm

omit h in
theorem maintains_checkLatch : Maintains (serve adapter) A I J checkLatch := by
  apply Maintains.bind (.get _)
  intro e
  cases e with
  | none => exact .pure ()
  | some e => exact .throw _

theorem Kept.guarded {g : Guard} {m : Run α} (hm : Maintains (serve adapter) A I J m) :
    Maintains (serve adapter) A I J (guarded adapter g m) := by
  apply Maintains.bind maintains_checkLatch
  intro _
  apply Maintains.tryCatch hm
  intro e
  have hother (e : Exc) :
      Maintains (serve adapter) A I J (if isDefinite adapter g.commitCapable e then Proc.throw e else do
      latchUnknown g adapter e
      World.raise (g.unknownOutcome adapter e) : Run α) :=
    .ite (.throw e) (.bind (h.modify fun _ => rfl) fun _ => .throw _)
  cases e with
  | migr8 e => exact .throw _
  | driver e => exact hother (.driver e)
  | commitOutcomeUnknown code => exact hother (.commitOutcomeUnknown code)
  | plain name => exact hother (.plain name)
  | interrupt => exact hother .interrupt
  | base name => exact hother (.base name)

theorem Kept.batchTransactionState (hs : K .status) : Maintains (serve adapter) A I J (batchTransactionState adapter) :=
  .bind (h.perform hs) fun _ => .ite (.pure _) (.pure _)

theorem Kept.exec {c : Config} {op : Op} {operation phase : String} {id : Option String} (hc : c.adapter = adapter)
    (hop : K op) :
    Maintains (serve adapter) A I J (exec c op operation phase id) := by
  subst hc
  exact h.guarded (h.perform hop)

variable (hT : ∀ op, txnOp op = true → K op)

include hT

theorem Kept.hasOpenTransaction : Maintains (serve adapter) A I J (hasOpenTransaction adapter) := by
  apply h.guarded
  cases adapter with
  | oracle => exact .bind (h.perform (hT _ rfl)) fun _ => .pure _
  | sqlite => exact .bind (h.perform (hT _ rfl)) fun _ => .pure _
  | postgres => exact .bind (h.perform (hT _ rfl)) fun _ => .pure _

theorem Kept.begin : Maintains (serve adapter) A I J (begin adapter) := by
  have hbegin : Maintains (serve adapter) A I J (doBegin adapter) := by
    cases adapter with
    | sqlite => exact .bind (h.perform (hT _ rfl)) fun _ => h.modify fun _ => rfl
    | postgres => exact h.perform (hT _ rfl)
    | oracle => exact .pure ()
  exact .bind (.get _) fun _ => .ite (.throw _) (.bind (h.hasOpenTransaction hT) fun _ => .ite (.throw _)
    (.bind (h.guarded hbegin) fun _ => h.modify fun _ => rfl))

theorem Kept.rollback : Maintains (serve adapter) A I J (rollback adapter) := by
  refine .bind ?_ fun _ => h.modify fun _ => rfl
  cases adapter with
  | sqlite =>
      exact .bind (h.perform (hT _ rfl)) fun _ =>
        maintains_onlyIf _ (.bind (h.perform (hT _ rfl)) fun _ => h.modify fun _ => rfl)
  | postgres => exact .bind (h.perform (hT _ rfl)) fun _ => maintains_onlyIf _ (h.perform (hT _ rfl))
  | oracle => exact h.perform (hT _ rfl)

theorem Kept.durableCommit {b : Boundary} {id : Option String} (hb : K (.commit b)) :
    Maintains (serve adapter) A I J (durableCommit adapter b id) := by
  apply h.guarded
  refine .bind ?_ fun _ => h.modify fun _ => rfl
  cases adapter with
  | sqlite =>
      refine .bind (h.perform (hT _ rfl)) fun _ => .bind (.tryCatch (h.perform hb) ?_) fun _ => h.modify fun _ => rfl
      intro e
      unfold Adapters.commitFailed
      split
      · exact .ite (.throw _) (.throw _)
      · exact .throw e
  | postgres =>
      exact .bind (h.perform (hT _ rfl)) fun _ =>
        .ite (.throw _) (.bind (h.perform hb) fun _ => .ite (.throw _) (.pure ()))
  | oracle => exact .bind (h.perform hb) fun _ => .pure ()

theorem Kept.establishTransactionIdentity : Maintains (serve adapter) A I J (establishTransactionIdentity adapter) := by
  apply h.guarded
  cases adapter with
  | sqlite => exact .bind (h.perform (hT _ rfl)) fun _ => .ite (.bind (.get _) fun _ => .pure _) (.throw _)
  | postgres => exact .bind (h.perform (hT _ rfl)) fun _ => .pure _
  | oracle => exact .bind (h.perform (hT _ rfl)) fun _ => .pure _

theorem Kept.checkTransactionIdentity (established : Option Identity) (id scope outcome : String) :
    Maintains (serve adapter) A I J (checkTransactionIdentity adapter established id scope outcome) := by
  have hread : Maintains (serve adapter) A I J (readTransactionIdentity adapter) := by
    apply h.guarded
    cases adapter with
    | sqlite => exact .bind (h.perform (hT _ rfl)) fun _ => .ite (.bind (.get _) fun _ => .pure _) (.pure _)
    | postgres =>
        exact .bind (h.perform (hT _ rfl)) fun _ => .ite (.bind (h.perform (hT _ rfl)) fun _ => .pure _) (.pure _)
    | oracle => exact .bind (h.perform (hT _ rfl)) fun _ => .pure _
  cases established with
  | none => exact .pure ()
  | some i => exact .bind hread fun _ => .ite (.pure ()) (.bind (h.modify fun _ => rfl) fun _ => .throw _)

theorem Kept.metadataExecuteInTransaction {c : Config} (hc : c.adapter = adapter) {update : Run Nat}
    (hu : Maintains (serve adapter) A I J update) (what : String) :
    Maintains (serve adapter) A I J (metadataExecuteInTransaction c update what) := by
  subst hc
  exact .bind (h.begin hT) fun _ => .bind hu fun _ => .ite (.pure ()) (.bind (h.rollback hT) fun _ => .throw _)

theorem Kept.executeDdl {scope : Scope} {sql : String} {concurrent : Bool} (hs : K (.statement scope .ddl sql true))
    (hc : K (.commit .restartableDdl)) : Maintains (serve adapter) A I J (executeDdl adapter scope sql concurrent) := by
  have hplain :
      Maintains (serve adapter) A I J (do let _ ← World.perform (.statement scope .ddl sql true) : Run Unit) :=
    .bind (h.perform hs) fun _ => .pure ()
  have htxn : Maintains (serve adapter) A I J (executeDdlInTransaction adapter scope sql) :=
    .bind (h.begin hT) fun _ => .bind (.tryCatch (h.perform hs) fun _ =>
      .bind (maintains_onlyIf _ (h.rollback hT)) fun _ => .throw _) fun _ => h.durableCommit hT hc
  unfold Adapters.executeDdl
  split
  · exact hplain
  · exact hplain
  · exact htxn

end Transactions

section Texts

theorem maintains_refuse (r : Option TextError) : Maintains (serve adapter) A I J (refuse r) := by
  cases r with
  | none => exact .pure ()
  | some e => exact .throw _

theorem maintains_liftText (r : Except TextError α) : Maintains (serve adapter) A I J (liftText r) := by
  cases r with
  | ok a => exact .pure a
  | error e => exact .throw _

theorem maintains_raiseIf (e : Option Migr8Error) : Maintains (serve adapter) A I J (raiseIf e) := by
  cases e with
  | none => exact .pure ()
  | some e => exact .throw _

theorem maintains_admitSqlEntry (phase : String) : Maintains (serve adapter) A I J (admitSqlEntry input unit phase) :=
  .bind (maintains_liftText _) fun _ => .ite (.bind (maintains_refuse _) fun _ => .pure _)
    (.ite (.bind (maintains_refuse _) fun _ => .pure _) (.bind (maintains_refuse _) fun _ => .pure _))

theorem maintains_checkResult (value : Returned) (id : String) :
    Maintains (serve adapter) A I J (checkResult value id) := by
  cases value with
  | nothing => exact .pure ()
  | deferred kind => exact .throw _
  | other typeName => exact .throw _

end Texts

section Batches

variable (h : Kept adapter A I J K)

include h

variable (env : Env) (ha : env.adapter = adapter) (hT : ∀ op, txnOp op = true → K op)

include ha

theorem Kept.admitCall (hs : K .status) (operation : String) :
    Maintains (serve adapter) A I J (admitCall env operation) := by
  subst ha
  refine .bind maintains_checkLatch fun _ => .bind (.get _) fun _ =>
    .ite (.bind (h.batchTransactionState hs) fun state => ?_) (.pure ())
  cases state with
  | «open» => exact .pure ()
  | rolledBack => exact .bind (h.modify fun _ => rfl) fun _ => .throw _
  | ended => exact .bind (h.modify fun _ => rfl) fun _ => .throw _

include hT

theorem Kept.rollbackBatch : Maintains (serve adapter) A I J (rollbackBatch env) := by
  subst ha
  exact .tryCatch (h.rollback hT) fun _ => .ite (.pure ()) (.throw _)

theorem Kept.inspectBatch (established : Option Identity) (failed : Bool) :
    Maintains (serve adapter) A I J (inspectBatch env established failed) := by
  have hrollback := h.rollbackBatch env ha hT
  subst ha
  refine .bind (h.batchTransactionState (hT _ rfl)) fun state => ?_
  cases state with
  | «open» => exact .bind (h.checkTransactionIdentity hT _ _ _ _) fun _ => .pure _
  | rolledBack => exact .bind hrollback fun _ => .ite (.pure _) (.bind (h.modify fun _ => rfl) fun _ => .throw _)
  | ended => exact .bind (h.modify fun _ => rfl) fun _ => .throw _

theorem Kept.checkBatch (established : Option Identity) (failed : Bool) :
    Maintains (serve adapter) A I J (checkBatch env established failed) := by
  refine .tryCatch (h.inspectBatch env ha hT established failed) fun e => ?_
  unfold batchCheckFailed
  split
  · exact .pure _
  · exact .pure _
  · exact .throw e
  · exact .ite
      (.bind (h.rollbackBatch env ha hT) fun _ => .ite (.pure _) (.bind (h.modify fun _ => rfl) fun _ => .throw _))
      (.throw e)

variable (hc : K (.commit .restartableBatch))

include hc

theorem Kept.settleBatch (failed : Bool) : Maintains (serve adapter) A I J (settleBatch env failed) := by
  have hrollback := h.rollbackBatch env ha hT
  have hcommit : Maintains (serve adapter) A I J (commitBatch env) := by
    subst ha
    exact .tryCatch (h.durableCommit hT hc) fun e => .ite (.throw e) (.ite (.throw _) (.throw e))
  exact .bind (.get _) fun _ =>
    .ite (.bind (maintains_onlyIf _ hrollback) fun _ => .ite (.pure ()) maintains_checkLatch)
    (.ite hrollback hcommit)

theorem Kept.finishBatch (established : Option Identity) (failed : Bool) :
    Maintains (serve adapter) A I J (finishBatch env established failed) :=
  .bind (.get _) fun _ => .ite (h.settleBatch env ha hT hc failed)
    (.bind (h.checkBatch env ha hT established failed) fun _ => maintains_onlyIf _ (h.settleBatch env ha hT hc failed))

end Batches

section Units

variable (h : Kept input.adapter A I J K) (hT : ∀ op, txnOp op = true → K op)

theorem maintains_latchedOr (e : Migr8Error) : Maintains (serve adapter) A I J (latchedOr e : Run α) :=
  .bind (.get _) fun _ => .throw _

include h hT

theorem Kept.rollbackQuietly : Maintains (serve input.adapter) A I J (rollbackQuietly input.adapter) :=
  .bind (.get _) fun _ => .ite (.pure ()) (.tryCatch (h.rollback hT) fun _ => .ite (.pure ()) (.throw _))

theorem Kept.handleAtomic (e : Exc) : Maintains (serve input.adapter) A I J (handleAtomic input unit e) := by
  have hrollback := h.rollbackQuietly hT
  unfold Engine.handleAtomic
  split
  · exact .throw e
  · exact .bind hrollback fun _ => .throw e
  · exact .bind hrollback fun _ => .throw e
  · exact .ite (.bind hrollback fun _ => maintains_latchedOr _) (.throw e)

theorem Kept.handleRestartable (e : Exc) : Maintains (serve input.adapter) A I J (handleRestartable input unit e) := by
  have hcleanup : Maintains (serve input.adapter) A I J (postReturnCleanup input) :=
    .bind (.get _) fun _ => .ite (.pure ()) (.ite (h.rollbackQuietly hT)
      (.bind (h.hasOpenTransaction hT) fun _ => maintains_onlyIf _ (h.rollbackQuietly hT)))
  unfold Engine.handleRestartable
  split
  · exact .throw e
  · exact .bind hcleanup fun _ => .throw e
  · exact .bind hcleanup fun _ => .throw e
  · exact .ite (.bind hcleanup fun _ => maintains_latchedOr _) (.throw e)

omit hT in
theorem Kept.requireValid (hc : K (.checkRequired unit.required)) :
    Maintains (serve input.adapter) A I J (requireValid input unit) := by
  have hcheck : Maintains (serve input.adapter) A I J (checkRequired input.adapter unit.required) := by
    cases hadapter : input.adapter with
    | sqlite => exact .pure _
    | postgres => exact .pure _
    | oracle =>
        rw [hadapter] at h
        exact .tryCatch (h.perform hc) fun _ => .ite (.pure _) (.throw _)
  exact .bind (.ite (.pure _) (h.guarded hcheck)) fun _ => .bind (h.modify fun _ => rfl) fun _ =>
    .ite (.pure ()) (.throw _)

variable (hS : ∀ op, StepOp unit op → (∀ id, op ≠ .deleteProgress id) → K op)

include hS

theorem Kept.runAtomic (hinvoke : Maintains (serve input.adapter) A I J (invoke input unit none)) :
    Maintains (serve input.adapter) A I J (runAtomic input unit) := by
  refine .bind (h.begin hT) fun _ => .bind (h.establishTransactionIdentity hT) fun identity =>
    .bind (.tryCatch ?_ (h.handleAtomic hT)) fun _ => h.durableCommit hT (hS _ (.inl rfl) fun _ h => by cases h)
  refine .bind hinvoke fun _ => .bind maintains_checkLatch fun _ =>
    .bind (h.requireValid (hS _ trivial fun _ h => by cases h)) fun _ =>
    .bind (h.checkTransactionIdentity hT _ _ _ _) fun _ => h.exec rfl (hS (.insertHistory _) rfl fun _ h => by cases h)

theorem Kept.admitUnit (active : Option HistoryRow) :
    Maintains (serve input.adapter) A I J (admitUnit input unit active) := by
  have hcommit :
      Maintains (serve input.adapter) A I J
      (Adapters.durableCommit input.adapter .restartableAdmission (some unit.id)) :=
    h.durableCommit hT (hS _ (.inr (.inl rfl)) fun _ h => by cases h)
  cases active with
  | none =>
      exact .bind (.bind (h.begin hT) fun _ =>
        .bind (h.exec rfl (hS (.insertHistory _) rfl fun _ h => by cases h)) fun _ => hcommit)
        fun _ => .pure _
  | some row =>
      exact .bind (.bind (h.metadataExecuteInTransaction hT rfl
        (h.exec rfl (hS (.updateAttempt _ _ _ _) rfl fun _ h => by cases h)) _) fun _ => hcommit) fun _ => .pure _

/-- The admission, the code, and what follows it up to the completion. -/
theorem Kept.runRestartable {J' : Local → Session → Prop} (hlog : K (.log "admitted" (some unit.id)))
    (hinvoke : ∀ attempt, Maintains (serve input.adapter) A I J (invoke input unit attempt))
    (hJ : ∀ l s, J l s → J' l s)
    (hcomplete : Leads (serve input.adapter) A I J J' (completeActiveRow input.config unit.id))
    (active : Option HistoryRow) :
    Leads (serve input.adapter) A I J J' (runRestartable input unit active) :=
  (h.admitUnit hT hS active).bind_leads hJ fun attempt => (h.perform hlog).bind_leads hJ fun _ =>
    (Maintains.tryCatch (hinvoke attempt) (h.handleRestartable hT)).bind_leads hJ fun _ =>
    maintains_checkLatch.bind_leads hJ fun _ =>
    (Maintains.bind (.get _) fun _ => .ite (.pure _) (h.hasOpenTransaction hT)).bind_leads hJ fun _ =>
    .ite ((Maintains.bind (h.rollbackQuietly hT) fun _ => .throw _).leads hJ)
      ((h.requireValid (hS _ trivial fun _ h => by cases h)).bind_leads hJ fun _ => hcomplete)

theorem Kept.completeActiveRow (hd : K (.deleteProgress unit.id)) :
    Maintains (serve input.adapter) A I J (completeActiveRow input.config unit.id) :=
  .bind (h.metadataExecuteInTransaction hT rfl
  (h.exec rfl (hS (.completeActive _ _) rfl fun _ h => by cases h)) _) fun _ =>
    .bind (h.exec rfl hd) fun _ => h.durableCommit hT (hS _ (.inr (.inr rfl)) fun _ h => by cases h)

end Units

section Runs

variable {M : Session → Prop} {l : Local} {s : Session} {c : RunLatch}

theorem Kept.lift {m : Run α} {P : Except Exc α → Local → RunLatch → Prop} {L : Op → Prop}
    (h : Kept adapter A I (fun _ s => M s) K) (hm : Safe adapter L m P l c) (hL : ∀ op, L op → K op) (hs : M s) :
    wp (serve adapter) A I m (fun r l' s' => (∃ c', P r l' c') ∧ M s') l s := by
  have hlift := wp_lift (A := A) hm hs fun q o s' hq ha hs' => h.step q.op q.state s' o (hL _ hq) ha hs'
  apply wp_weaken hlift (fun _ _ _ ha => ha)
  intro q s' hq
  obtain ⟨⟨c', hord⟩, hs'⟩ := hq
  exact h.seen q.op q.state s' (hL _ hord.kind) hs'

def betweenOp (op : Op) : Prop := serviceOp op = true ∨ snapshotOp op = true ∨ ∃ event id, op = .log event id

/-- What a run asks for: `C` holds between migrations, and `P` at all times. -/
structure Passes (input : Input) (A : Request → Session → Outcome → Prop) (I : Request → Session → Prop)
    (C P : Session → Prop) : Prop where
  between : Kept input.adapter A I (fun _ s => C s) betweenOp
  closing : Kept input.adapter A I (fun _ s => P s) fun op => closingOp op = true
  always : ∀ s, C s → P s
  unit : ∀ active done unit rest rows l s, Frame False rows s →
    Ready input.capture.units input.recoverId active done (unit :: rest) rows → C s →
    wp (serve input.adapter) A I (runUnit input active unit) (fun r _ s' => P s' ∧ (r = .ok () → C s')) l s

variable {C P : Session → Prop} (h : Passes input A I C P)

include h

theorem Passes.log {event : String} {id : Option String} {f : Answer (.log event id) → Run α} {l : Local} {s : Session}
    (hs : C s)
    (hf : ∀ o a, C (serve input.adapter ⟨.log event id, l⟩ o s).2 →
      wp (serve input.adapter) A I (f a) (fun _ _ s' => P s') l (serve input.adapter ⟨.log event id, l⟩ o s).2) :
    wp (serve input.adapter) A I (perform (.log event id) >>= f) (fun _ _ s' => P s') l s := by
  have hlogs : betweenOp (.log event id) := .inr (.inr ⟨event, id, rfl⟩)
  have hstep (o : Outcome) (ho : A ⟨.log event id, l⟩ s o) : C (serve input.adapter ⟨.log event id, l⟩ o s).2 :=
    h.between.step (.log event id) l s o hlogs ho hs
  exact wp_perform_bind (h.between.seen _ l s hlogs hs) (fun o a ho _ => hf o a (hstep o ho))
    fun o e ho _ => h.always _ (hstep o ho)

/-- The induction is on the pending units. -/
theorem Passes.execute (active : Option HistoryRow) (units : List CapturedUnit) :
    ∀ (done : List CapturedUnit) (rows : List HistoryRow) (l : Local) (s : Session), Frame False rows s →
    Ready input.capture.units input.recoverId active done units rows → C s →
    wp (serve input.adapter) A I (Engine.execute input active units) (fun _ _ s' => P s') l s := by
  induction units with
  | nil => exact fun done rows l s _ _ hs => h.always s hs
  | cons unit units ih =>
      intro done rows l s hframe hready hs
      apply h.log hs
      intro o u hs₁
      have hframe₁ : Frame False rows (serve input.adapter ⟨.log "migration_start" (some unit.id), l⟩ o s).2 :=
        hframe.serve trivial
      have hboth := wp_and (h.unit active done unit units rows l _ hframe₁ hready hs₁)
        (Execution.wp_runUnit (A := A) (p := False) hframe₁ hready)
      apply (wp_bind _ _).2
      apply wp_mono (wp_weaken hboth (fun _ _ _ ha => ha) fun _ _ h => h.1)
      intro r l₂ s₂ h₂
      obtain ⟨⟨hp, hc⟩, hend, -⟩ := h₂
      cases r with
      | error e => exact hp
      | ok u =>
          obtain ⟨rows', hready', hframe'⟩ := hend
          apply (wp_bind _ _).2
          apply (wp_modify _).2
          apply h.log (hc rfl)
          intro o u hs₃
          exact ih (done ++ [unit]) rows' _ _ (hframe'.serve trivial) hready' hs₃

theorem Passes.migrate {rows : List HistoryRow} {l : Local} {s : Session} (hl : l.latch.state = .open)
    (hframe : Frame False rows s) (hs : C s) :
    wp (serve input.adapter) A I (Engine.migrate input) (fun _ _ s' => P s') l s := by
  have hopen : Safe input.adapter (fun op => serviceOp op = true) (openNamespace input) _ l l.latch :=
    Safe.openNamespace (fun _ h => h) l l.latch (Later.refl _) hl
  have hkept :=
    wp_and (h.between.lift hopen (fun _ h => .inl h) hs) (wp_lift (A := A) (J := Frame False rows) hopen hframe
    fun q o s' hq _ hs' => hs'.serve (frameOp_of_serviceOp hq).keeps)
  apply (wp_bind _ _).2
  apply wp_mono (wp_weaken hkept (fun _ _ _ ha => ha) fun _ _ h => h.1)
  intro r l₁ s₁ h₁
  obtain ⟨⟨-, hs₁⟩, -, hframe₁⟩ := h₁
  cases r with
  | error e => exact h.always _ hs₁
  | ok u =>
      have hplan : Obeys input.adapter (fun op => snapshotOp op = true) any (buildPlan input) :=
        Obeys.buildPlan fun _ h => h
      have hboth := wp_and (h.between.lift (hplan l₁ l₁.latch (Later.refl _) trivial) (fun _ h => .inr (.inl h)) hs₁)
        (Planning.wp_buildPlan (A := A) hframe₁ False.elim)
      apply (wp_bind _ _).2
      apply wp_mono (wp_weaken hboth (fun _ _ _ ha => ha) fun _ _ h => h.1)
      intro r l₂ s₂ h₂
      obtain ⟨⟨-, hs₂⟩, hframe₂, -, hready⟩ := h₂
      cases r with
      | error e => exact h.always _ hs₂
      | ok plan =>
          obtain ⟨done, hready⟩ := hready plan rfl
          apply h.log hs₂
          intro o u hs₃
          exact h.execute plan.active plan.pending done rows _ _ (hframe₂.serve trivial) hready hs₃

theorem Passes.run {s : Session} (hidle : s.txn = none) (hs : C s) :
    wp (serve input.adapter) A I (Engine.run input) (fun _ _ s' => P s') {} s := by
  have hframe : Frame False s.db.history s := Sessions.Holds.of_none ⟨rfl, False.elim⟩ hidle
  have hlogs : serviceOp (.log "run_start") = true := rfl
  refine RunObedience.wp_run.2 (wp_perform.2 ⟨h.between.seen _ {} s (.inl hlogs) hs, fun o ho => ?_⟩)
  have hs₁ : C (serve input.adapter ⟨.log "run_start", {}⟩ o s).2 :=
    h.between.step (.log "run_start") {} s o (.inl hlogs) ho hs
  have hend {m : Run Report} {Q : Except Exc Report → Local → RunLatch → Prop} {l : Local} {c : RunLatch} {s : Session}
      (hm : Safe input.adapter (fun op => closingOp op = true) m Q l c) (hs : P s) :
      wp (serve input.adapter) A I m (fun _ _ s' => P s') l s :=
    wp_mono (h.closing.lift hm (fun _ h => h) hs) fun _ _ _ h => h.2
  cases hr : (serve input.adapter ⟨.log "run_start", {}⟩ o s).1 with
  | error e =>
      have hthrow :
          Safe input.adapter (fun op => closingOp op = true) (settling input (Proc.throw e)) _ {} RunLatch.fresh :=
        Safe.settling_throw (fun _ h => h) (Later.refl _) rfl rfl
      exact hend hthrow (h.always _ hs₁)
  | ok u =>
      have hsafe : Safe input.adapter (fun _ => True) (Engine.migrate input) _ {} RunLatch.fresh :=
        Safe.migrate (fun _ => trivial) {} RunLatch.fresh (Later.refl _) rfl
      have htold := wp_lift (A := A) (J := fun _ => True) (s := (serve input.adapter ⟨.log "run_start", {}⟩ o s).2)
        hsafe trivial fun _ _ _ _ _ _ => trivial
      have hmigrate :=
        h.migrate (l := {}) (s := (serve input.adapter ⟨.log "run_start", {}⟩ o s).2) rfl (hframe.serve trivial) hs₁
      apply wp_mono (wp_weaken (wp_and hmigrate htold) (fun _ _ _ ha => ha) fun _ _ h => h.1)
      intro r l' s' h'
      obtain ⟨hs', ⟨c', -, ht, -⟩, -⟩ := h'
      have hconclude :
          Safe input.adapter (fun op => closingOp op = true) (settling input (conclude input r)) _ l' l'.latch :=
        Safe.settling_conclude (fun _ h => h) (Later.refl l'.latch) ht
      exact hend hconclude hs'

end Runs

end Migr8.Keeping
