import Migr8.Recovery
import Migr8.Reporting
import Migr8.Storage

namespace Migr8.Convergence

open Errors Model Latch Driver Database World Adapters Metadata Engine StateValidate Rules Discipline Obedience
open EngineObedience Teardown RunObedience Sessions Shape Forward Frames Inspection Initialization Opening Snapshots
open Plans PlanRule Runs Outcomes Acceptance DurableHistory Storage Recovery Lib.Process
open Lib.Interaction (Exchange trace final result play_wp final_wp result_wp)

variable {adapter : Adapter} {input : Input} {unit : CapturedUnit} {K : Op → Prop} {d d' : Db} {s s' : Session}
  {A : Request → Session → Outcome → Prop} {l : Local} {p : Prop} {plan : Plan}

section Writes

def Spelled (unit : CapturedUnit) : Op → Prop
  | .insertHistory i => i.seq = unit.position ∧ i.fingerprint = unit.fingerprint ∧ i.language = unit.language ∧
  i.mode = unit.mode
  | .updateAttempt _ fingerprint language _ => fingerprint = unit.fingerprint ∧ language = unit.language
  | _ => True

def Writes (unit : CapturedUnit) (op : Op) : Prop := UnitOp unit op ∧ Spelled unit op

theorem spelled_of_userOp {op : Op} (h : UserOp unit op) : Spelled unit op := by
  cases op <;> trivial

theorem spelled_of_txnOp {op : Op} (h : txnOp op = true) : Spelled unit op := by
  cases op <;> trivial

section Units

variable (hW : ∀ op, Writes unit op → K op)

include hW

theorem writes_step_ops (op : Op) (h : StepOp unit op) (hs : Spelled unit op) : K op := hW op ⟨.inl h, hs⟩

theorem writes_txn_ops (op : Op) (h : txnOp op = true) : K op :=
  writes_step_ops hW op (stepOp_of_txnOp h) (spelled_of_txnOp h)

theorem writes_user_ops (op : Op) (h : UserOp unit op) : K op := hW op ⟨.inr (.inl h), spelled_of_userOp h⟩

theorem writes_invoke (attempt : Option Int) : Quiet input.adapter K isOpen (invoke input unit attempt) :=
  Quiet.invoke (writes_user_ops hW) attempt (hW _ ⟨.inr (.inr rfl), trivial⟩) fun _ => hW _ ⟨.inr (.inr rfl), trivial⟩

theorem writes_atomicBody (identity : Identity) : Obeys input.adapter K isOpen (atomicBody input unit identity) := by
  have ht := writes_txn_ops hW
  apply (writes_invoke hW none).bind_obeys
  intro _
  apply Obeys.checkLatch.bind
  intro _
  apply (Obeys.requireValid (writes_step_ops hW (.checkRequired unit.required) trivial trivial)).bind
  intro _
  apply (Obeys.checkTransactionIdentity ht identity _ _ _).bind
  intro _
  have hrow : K (.insertHistory (Execution.successInsert input unit)) :=
    writes_step_ops hW _ rfl ⟨rfl, rfl, rfl, rfl⟩
  exact (Obeys.exec hrow).weaken fun _ _ => trivial

theorem writes_runAtomic : Obeys input.adapter K any (runAtomic input unit) := by
  have ht := writes_txn_ops hW
  apply (Obeys.begin ht).bind
  intro _
  refine Obeys.weaken (Obeys.bind (Speaks.establishTransactionIdentity ht).obeys fun i => ?_) fun _ _ => trivial
  apply ((writes_atomicBody hW i).tryCatch (Obeys.handleAtomic (ht _ rfl) (ht _ rfl))).bind
  intro _
  exact (Obeys.durableCommit ht (writes_step_ops hW _ (.inl rfl) trivial)).weaken fun _ _ => trivial

theorem writes_admitUnit (hm : unit.mode = .restartable) (active : Option HistoryRow) :
    Obeys input.adapter K any (admitUnit input unit active) := by
  have ht := writes_txn_ops hW
  have hcommit : Obeys input.config.adapter K isOpen
      (durableCommit input.config.adapter .restartableAdmission (some unit.id)) :=
    (Obeys.durableCommit ht (writes_step_ops hW _ (.inr (.inl rfl)) trivial)).weaken fun _ _ => trivial
  cases active with
  | none =>
      apply Obeys.bind ?_ fun _ => Obeys.of_steady (Steady.pure _)
      apply (Obeys.begin ht).bind
      intro _
      apply Obeys.bind ?_ fun _ => hcommit
      have hrow : K (.insertHistory
          { seq := unit.position, migrationId := unit.id, fingerprint := unit.fingerprint, language := unit.language,
            mode := .restartable, status := .active, attempt := some 1, runner := input.config.runner }) :=
        writes_step_ops hW _ rfl ⟨rfl, rfl, rfl, hm.symm⟩
      exact (Obeys.exec hrow).weaken fun _ _ => trivial
  | some row =>
      apply Obeys.bind ?_ fun _ => Obeys.of_steady (Steady.pure _)
      have hrow : K (.updateAttempt unit.id unit.fingerprint unit.language input.config.runner) :=
        writes_step_ops hW _ rfl ⟨rfl, rfl⟩
      exact (Obeys.metadataExecuteInTransaction ht (Obeys.exec hrow)).bind fun _ => hcommit

theorem writes_completeActiveRow {c : Config} : Obeys c.adapter K any (completeActiveRow c unit.id) := by
  have ht := writes_txn_ops hW
  have hrow : K (.completeActive unit.id c.runner.toolVersion) := writes_step_ops hW _ rfl trivial
  apply (Obeys.metadataExecuteInTransaction ht (Obeys.exec hrow)).bind
  intro _
  have hprogress : K (.deleteProgress unit.id) := writes_step_ops hW _ rfl trivial
  apply Obeys.bind ((Obeys.exec hprogress).weaken fun _ _ => trivial)
  intro _
  exact (Obeys.durableCommit ht (writes_step_ops hW _ (.inr (.inr rfl)) trivial)).weaken fun _ _ => trivial

theorem writes_runRestartable (hm : unit.mode = .restartable) (active : Option HistoryRow) :
    Obeys input.adapter K any (runRestartable input unit active) := by
  have ht := writes_txn_ops hW
  have hs : K .status := ht _ rfl
  have hr : K .rollback := ht _ rfl
  have hi : K .readIdentity := ht _ rfl
  apply (writes_admitUnit hW hm active).bind
  intro attempt
  have hlog : K (.log "admitted" (some unit.id)) := hW _ ⟨.inr (.inr ⟨rfl, rfl⟩), trivial⟩
  apply Obeys.bind_steady (Steady.perform_open hlog)
  intro _
  have hinvoke : Quiet input.adapter K isOpen
      ((invoke input unit attempt).tryCatch (Engine.handleRestartable input unit)) :=
    (writes_invoke hW attempt).tryCatch fun e => Quiet.of_obeys (Obeys.handleRestartable hs hr hi e)
  apply hinvoke.bind_obeys
  intro _
  apply Obeys.checkLatch.bind
  intro _
  apply (Obeys.transactionLeftOpen hs hi).bind
  intro b
  apply Obeys.ite
  · apply Obeys.bind_steady ((Steady.rollbackQuietly hs hr).weaken fun _ _ => trivial)
    exact fun _ => Obeys.raise _
  · apply (Obeys.requireValid (writes_step_ops hW (.checkRequired unit.required) trivial trivial)).bind
    exact fun _ => (writes_completeActiveRow hW).weaken fun _ _ => trivial

theorem writes_runUnit (active : Option HistoryRow) : Obeys input.adapter K isOpen (runUnit input active unit) := by
  unfold Engine.runUnit
  cases hm : unit.mode with
  | atomic => exact (writes_runAtomic hW).weaken fun _ _ => trivial
  | restartable => exact (writes_runRestartable hW hm _).weaken fun _ _ => trivial

end Units

/-- The loop over the pending units writes each of them as the manifest has it. -/
theorem writes_execute (active : Option HistoryRow) (units : List CapturedUnit)
    (hW : ∀ unit ∈ units, ∀ op, Writes unit op → K op) (hl : ∀ event id, K (.log event id)) :
    Obeys input.adapter K isOpen (Engine.execute input active units) := by
  induction units with
  | nil => exact Obeys.of_steady (Steady.pure ())
  | cons unit units ih =>
      apply Obeys.bind_steady (Steady.perform_open (hl _ _))
      intro _
      apply (writes_runUnit (hW unit List.mem_cons_self) active).bind
      intro _
      refine Obeys.bind_steady (Steady.modify fun _ => ⟨rfl, rfl⟩) fun _ => ?_
      apply Obeys.bind_steady (Steady.perform_open (hl _ _))
      intro _
      exact ih fun u hu => hW u (List.mem_cons_of_mem _ hu)

end Writes

section Rows

variable {rows : List HistoryRow} {units : List CapturedUnit}

/-- Every row was there, or its first fingerprint is that of its unit. -/
def Sourced (rows : List HistoryRow) (units : List CapturedUnit) (d : Db) : Prop :=
  ∀ r ∈ d.history, (∃ r₀ ∈ rows, r₀.migrationId = r.migrationId) ∨
    ∃ u ∈ units, u.id = r.migrationId ∧ u.fingerprint = r.firstFingerprint

/-- What the row says of the migration is what the manifest says of `unit`. -/
structure Tells (unit : CapturedUnit) (r : HistoryRow) : Prop where
  seq : r.seq = unit.position
  id : r.migrationId = unit.id
  fingerprint : r.fingerprint = unit.fingerprint
  language : r.language = unit.language.value
  mode : r.mode = unit.mode.value

def Matching (units : List CapturedUnit) (d : Db) : Prop := ∀ r ∈ d.history, ∃ u ∈ units, Tells u r

theorem mem_updateActive {id : String} {f : HistoryRow → HistoryRow} {r' : HistoryRow}
    (h : r' ∈ (d.updateActive id f).2.history) :
    ∃ r ∈ d.history, r' = r ∨ isActiveRow id r = true ∧ r' = f r := by
  obtain ⟨r, hr, he⟩ := List.mem_map.1 h
  refine ⟨r, hr, ?_⟩
  by_cases ha : isActiveRow id r = true
  · exact .inr ⟨ha, by rw [← he, if_pos ha]⟩
  · exact .inl (by rw [← he, if_neg ha])

theorem id_of_isActiveRow {id : String} {r : HistoryRow} (h : isActiveRow id r = true) : r.migrationId = id :=
  beq_iff_eq.1 (Bool.and_eq_true_iff.1 h).1

theorem Sourced.updateActive {id : String} {f : HistoryRow → HistoryRow}
    (hid : ∀ r, (f r).migrationId = r.migrationId) (hfirst : ∀ r, (f r).firstFingerprint = r.firstFingerprint)
    (h : Sourced rows units d) : Sourced rows units (d.updateActive id f).2 := by
  intro r' hr'
  obtain ⟨r, hr, he⟩ := mem_updateActive hr'
  have hsame : r'.migrationId = r.migrationId ∧ r'.firstFingerprint = r.firstFingerprint := by
    rcases he with rfl | ⟨-, rfl⟩
    · exact ⟨rfl, rfl⟩
    · exact ⟨hid r, hfirst r⟩
  rw [hsame.1, hsame.2]
  exact h r hr

def Bookish (units : List CapturedUnit) (op : Op) : Prop :=
  serviceOp op = true ∨ snapshotOp op = true ∨ (∃ event id, op = .log event id) ∨ ∃ u ∈ units, Writes u op

theorem Bookish.sourced {op : Op} (h : Bookish units op) : Keeps (Sourced rows units) op := by
  cases op <;> try trivial
  case createObject name => exact fun d h => h
  case insertMarker row => exact fun d now h => h
  case insertHistory i =>
    intro d now hd _ r hr
    rcases List.mem_append.1 hr with hr | hr
    · exact hd r hr
    · rw [List.mem_singleton.1 hr]
      rcases h with h | h | ⟨_, _, h⟩ | ⟨u, hu, hop, hspelled⟩
      · cases h
      · cases h
      · cases h
      · refine .inr ⟨u, hu, ?_, hspelled.2.1.symm⟩
        rcases hop with hop | hop | hop
        · exact hop.symm
        · exact hop.elim
        · exact hop.elim
  case updateAttempt id fingerprint language runner =>
    exact fun d now hd => hd.updateActive (fun _ => rfl) fun _ => rfl
  case completeActive id toolVersion =>
    exact fun d now hd => hd.updateActive (fun _ => rfl) fun _ => rfl
  case deleteProgress id => exact fun d h => h
  case progressSet scope key value => exact fun d now w h _ => h
  case statement => exact fun d w h => h

theorem Writes.matching {op : Op} (hu : unit ∈ units) (h : Writes unit op)
    (hd : ∀ u ∈ units, u.id = unit.id → u = unit) : Keeps (Matching units) op := by
  obtain ⟨hop, hspelled⟩ := h
  cases op <;> try trivial
  case createObject name => exact fun d h => h
  case insertMarker row => exact fun d now h => h
  case insertHistory i =>
    intro d now hd _ r hr
    rcases List.mem_append.1 hr with hr | hr
    · exact hd r hr
    · rw [List.mem_singleton.1 hr]
      obtain ⟨hseq, hf, hlang, hmode⟩ := hspelled
      refine ⟨unit, hu, hseq, ?_, hf, congrArg Language.value hlang, congrArg Mode.value hmode⟩
      rcases hop with hop | hop | hop
      · exact hop
      · exact hop.elim
      · exact hop.elim
  case updateAttempt id fingerprint language runner =>
    intro d now hm r' hr'
    obtain ⟨r, hr, he⟩ := mem_updateActive hr'
    obtain ⟨u, hmem, htells⟩ := hm r hr
    rcases he with rfl | ⟨ha, rfl⟩
    · exact ⟨u, hmem, htells⟩
    · have hid : id = unit.id := by
        rcases hop with hop | hop | hop
        · exact hop
        · exact hop.elim
        · exact hop.elim
      have hsame : u = unit := hd u hmem (by rw [← htells.id, id_of_isActiveRow ha, hid])
      subst hsame
      exact ⟨u, hmem, htells.seq, htells.id, hspelled.1, congrArg Language.value hspelled.2, htells.mode⟩
  case completeActive id toolVersion =>
    intro d now hm r' hr'
    obtain ⟨r, hr, he⟩ := mem_updateActive hr'
    obtain ⟨u, hmem, htells⟩ := hm r hr
    rcases he with rfl | ⟨-, rfl⟩
    · exact ⟨u, hmem, htells⟩
    · exact ⟨u, hmem, htells.seq, htells.id, htells.fingerprint, htells.language, htells.mode⟩
  case deleteProgress id => exact fun d h => h
  case progressSet scope key value => exact fun d now w h _ => h
  case statement => exact fun d w h => h

theorem planFor_ok (h : planFor input d = .ok plan) :
    StateValidate.buildPlan input.capture (stored d) = .ok plan ∧ Admitted input.recoverId plan := by
  unfold planFor at h
  obtain ⟨plan', hb, h⟩ := bind_ok_iff.1 h
  obtain ⟨⟨⟩, hc, h⟩ := bind_ok_iff.1 h
  cases h
  exact ⟨hb, hc⟩

/-- A plan that needs no recovery is made where every row is as the manifest has it. -/
theorem matching_of_plan (hr : input.recoverId = none) (h : planFor input d = .ok plan) :
    Matching input.capture.units d := by
  obtain ⟨hb, ha⟩ := planFor_ok h
  rw [hr] at ha
  intro r hr
  have hmem : r ∈ (stored d).history := mem_stored.2 hr
  have hrule := rule_of_plan hb
  have hvalid := hrule.history.valid r hmem
  by_cases hact : r.isActive = true
  · have hstatus := isActive_iff.1 hact
    obtain ⟨u, hu, hpos, hid, -⟩ := hrule.agrees.active r hmem hstatus
    have hactive : plan.active = some r := ((plan_planned hb).active r).2 ⟨hmem, hstatus⟩
    obtain ⟨-, -, -, -, -, hcheck⟩ := buildPlan_ok hb
    obtain ⟨-, hmode, hchanged, hlang⟩ := checkActive_ok (hcheck r hactive) (getElem?_of_unit hu hpos)
    have hsource := Admitted.source ha hactive
    have hsame : r.fingerprint = u.fingerprint := by
      by_contra hne
      rcases hsource with hsource | hsource
      · rw [hchanged.2 hne] at hsource
        cases hsource
      · cases hsource
    refine ⟨u, hu, hpos.symm, hid.symm, hsame, hlang hsame, ?_⟩
    rw [hmode]
    exact (hvalid.active hstatus).1
  · have hsucc : r.isSuccess = true := by
      rw [isSuccess_eq_not_isActive (rowValid_iff.2 hvalid)]
      simp [hact]
    obtain ⟨u, hu, hpos, hid, hlang, hmode, hf⟩ := hrule.agrees.success r hmem (isSuccess_iff.1 hsucc)
    exact ⟨u, hu, hpos.symm, hid.symm, hf.symm, hlang.symm, hmode.symm⟩

end Rows

section Runs

variable {D E : Db → Prop} {os : List Outcome}

theorem keeps_true (op : Op) : Keeps (fun _ => True) op := by
  cases op <;> simp [Keeps]

theorem keeps_db (h : D d) (hs : s.db = d) : D s.db := hs.symm ▸ h

theorem holds_at_rest (hs : AtRest d s) (h : D d) : Holds D s := Holds.of_none (keeps_db h hs.db) hs.idle

theorem wp_execute_keeps (hl : l.latch.state = .open) (hp : planFor input d = .ok plan)
    (hD : ∀ u ∈ input.capture.units, ∀ op, Writes u op → Keeps D op) (hs : Holds D s) :
    wp (serve input.adapter) A (fun _ s => D s.db) (execute input plan.active plan.pending)
    (fun _ _ s => D s.db) l s := by
  have hpending : ∀ u ∈ plan.pending, u ∈ input.capture.units := by
    intro u hu
    rw [(buildPlan_ok (planFor_ok hp).1).2.2.2.1] at hu
    exact List.mem_of_mem_drop hu
  have hobeys : Obeys input.adapter (Keeps D) isOpen (execute input plan.active plan.pending) :=
    writes_execute plan.active plan.pending (fun u hu op h => hD u (hpending u hu) op h) fun _ _ => trivial
  have hlift := wp_lift (A := A) (J := Holds D) (hobeys l l.latch (Later.refl _) hl) hs fun q o s' hq _ hs' =>
      hs'.serve hq
  exact wp_weaken (wp_mono hlift fun _ _ _ h => h.2.db) (fun _ _ _ h => h) fun _ _ h => h.2.db

/-- `D` of whatever the initialization leaves, and `E` of what a plan is accepted
for, if writing what is in the manifest keeps them. -/
theorem wp_migrate_keeps (hwithin : ∀ d', Within input d d' → D d')
    (hplan : ∀ d' plan, planFor input d' = .ok plan → E d')
    (hD : ∀ u ∈ input.capture.units, ∀ op, Writes u op → Keeps D op)
    (hE : ∀ u ∈ input.capture.units, ∀ op, Writes u op → Keeps E op) (hs : AtRest d s) (hl : Poised l)
    (hm : input.recoverId = none → markerFound d = none → d.marker = []) :
    wp (serve input.adapter) A (fun _ s => D s.db) (migrate input)
    (fun r _ s => D s.db ∧ (r = .ok () → E s.db)) l s := by
  have hA : Answers False A := fun h => h.elim
  have hpermits : Permits (fun _ s => D s.db) input d := by
    constructor
    · exact fun s h op l _ => hwithin s.db h
    · exact fun name l s h _ => hwithin s.db h
  apply (wp_bind _ _).2
  apply wp_mono (wp_openNamespace hA hpermits hs hl hm)
  intro r l₁ s₁ h
  cases r with
  | error e => exact ⟨hwithin _ h.1, fun h => by cases h⟩
  | ok u =>
      obtain ⟨-, d₁, ho, hs₁, hl₁⟩ := h
      have hd₁ : D d₁ := hwithin d₁ ho.within
      have hask (s : Session) (h : s.db = d₁) : Asks (fun _ s => D s.db) s := fun op l _ => keeps_db hd₁ h
      apply (wp_bind _ _).2
      apply wp_mono (Snapshots.wp_buildPlan hask hA hs₁ hl₁ ho.complete)
      intro r l₂ s₂ h
      cases r with
      | error e => exact ⟨keeps_db hd₁ h.1, fun h => by cases h⟩
      | ok plan =>
          obtain ⟨hp, hs₂, hl₂⟩ := h
          apply (wp_bind _ _).2
          apply wp_perform.2
          refine ⟨keeps_db hd₁ hs₂.db, fun o _ => ?_⟩
          have hkeep {F : Db → Prop} (h : F d₁) : Holds F (serve input.adapter ⟨.log "plan", l₂⟩ o s₂).2 :=
            (holds_at_rest hs₂ h).serve trivial
          cases hr : (serve input.adapter ⟨.log "plan", l₂⟩ o s₂).1 with
          | error e => exact ⟨(hkeep hd₁).db, fun h => by cases h⟩
          | ok u =>
              have hboth := wp_and (wp_execute_keeps (A := A) hl₂.latch hp hD (hkeep hd₁))
                (wp_execute_keeps (A := A) hl₂.latch hp hE (hkeep (hplan d₁ plan hp)))
              exact wp_weaken (wp_mono hboth fun _ _ _ h => ⟨h.1, fun _ => h.2⟩) (fun _ _ _ h => h) fun _ _ h => h.1

/-- The same of a whole run: `D` wherever it is cut, and `E` if it exits 0. -/
theorem run_keeps (hwithin : ∀ d', Within input s.db d' → D d')
    (hplan : ∀ d' plan, planFor input d' = .ok plan → E d')
    (hD : ∀ u ∈ input.capture.units, ∀ op, Writes u op → Keeps D op)
    (hE : ∀ u ∈ input.capture.units, ∀ op, Writes u op → Keeps E op)
    (hm : markerFound s.db = none → s.db.marker = []) (os : List Outcome) :
    D (final (serve input.adapter) os (Engine.run input {}) s.afresh).db ∧
      ∀ x, result (serve input.adapter) os (Engine.run input {}) s.afresh = some x → exitOf x = .ok →
        E (final (serve input.adapter) os (Engine.run input {}) s.afresh).db := by
  have hA : Answers False fun (_ : Request) (_ : Session) (_ : Outcome) => True := fun h => h.elim
  have hcloses {d' : Db} (h : D d') : Closes (fun _ s => D s.db) d' := fun q s hs _ => keeps_db h hs
  have hwp : wp (serve input.adapter) (fun _ _ _ => True) (fun _ s => D s.db) (Engine.run input) _ {} s.afresh :=
    wp_run_of_migrate (atRest_afresh s) hA (hcloses (hwithin s.db (.inl rfl)))
      (fun s' hs' => wp_migrate_keeps hwithin hplan hD hE hs' ⟨rfl, rfl⟩ fun _ => hm) fun r l s' h => hcloses h.1
  have hends {x : Except Exc Report × Local} {s' : Session}
      (h : Ended (fun r _ s => D s.db ∧ (r = .ok () → E s.db)) x s' ∨
        ¬ False ∧ s'.db = s.db ∧ exitOf x = .migrationFailed) : D s'.db ∧ (exitOf x = .ok → E s'.db) := by
    rcases h with ⟨r, l, s₁, hR, hdb, hx⟩ | ⟨-, hdb, hx⟩
    · rw [hdb, hx]
      refine ⟨hR.1, fun hok => ?_⟩
      cases r with
      | error e => exact absurd hok (terminalExit_ne_ok e l)
      | ok u => exact hR.2 rfl
    · rw [hdb, hx]
      exact ⟨hwithin s.db (.inl rfl), fun h => by cases h⟩
  constructor
  · exact final_wp hwp os (fun _ _ => trivial) (fun _ _ h => h) fun x s' h => (hends h).1
  · exact fun x hx hok => (hends (result_wp hwp os (fun _ _ => trivial) hx)).2 hok

end Runs

section Retries

/-- What runs of one manifest make of `s`. Each may be cut anywhere. -/
inductive Retries (adapter : Adapter) (capture : Capture) (s : Session) : Session → Prop
  | refl : Retries adapter capture s s
  | run {s' : Session} (input : Input) (ha : input.adapter = adapter) (hc : input.capture = capture) (os : List Outcome)
      (h : Retries adapter capture s s') :
      Retries adapter capture s (final (serve adapter) os (Engine.run input {}) s'.afresh)

variable {capture : Capture} {rows : List HistoryRow}

theorem Retries.sequence (h : Retries adapter capture s s') : Sequence adapter s s' := by
  induction h with
  | refl => exact .refl
  | run input ha hc os h ih => exact .run input ha os ih

theorem Sourced.same (h : Sourced rows capture.units d) (he : d'.history = d.history) :
    Sourced rows capture.units d' := by
  intro r hr
  rw [he] at hr
  exact h r hr

theorem history_within (h : Within input d d') : d'.history = d.history := by
  rcases h with rfl | ⟨-, hu, hst⟩
  · rfl
  · exact hst.rows.1

theorem Retries.sourced (h : Retries adapter capture s s') (hs : Sane s.db) :
    Sourced s.db.history capture.units s'.db := by
  induction h with
  | refl => exact fun r hr => .inl ⟨r, hr, rfl⟩
  | @run t input ha hc os h ih =>
      subst ha hc
      have hsane := (Sequence.sane h.sequence hs).1
      have hwrites (u : CapturedUnit) (hu : u ∈ input.capture.units) (op : Op) (hop : Writes u op) :
          Keeps (Sourced s.db.history input.capture.units) op :=
        Bookish.sourced (.inr (.inr (.inr ⟨u, hu, hop⟩)))
      exact (run_keeps (E := fun _ => True) (fun d' hd => ih.same (history_within hd)) (fun _ _ _ => trivial)
        hwrites (fun _ _ op _ => keeps_true op) hsane.unmarked os).1

/-- What the history tells of a migration, less its times, its attempts and its runner. -/
structure Entry where
  seq : Int
  migrationId : String
  fingerprint : String
  firstFingerprint : String
  language : String
  mode : String
  status : String
  deriving DecidableEq, Repr

def HistoryRow.entry (r : HistoryRow) : Entry :=
  ⟨r.seq, r.migrationId, r.fingerprint, r.firstFingerprint, r.language, r.mode, r.status⟩

def recorded (d : Db) : List Entry := (sortBySeq d.history).map HistoryRow.entry

/-- The entry that `unit` comes to have in a history that begins as `rows`. -/
def finalEntry (rows : List HistoryRow) (unit : CapturedUnit) : Entry where
  seq := unit.position
  migrationId := unit.id
  fingerprint := unit.fingerprint
  firstFingerprint := ((rows.find? fun r => r.migrationId == unit.id).map (·.firstFingerprint)).getD unit.fingerprint
  language := unit.language.value
  mode := unit.mode.value
  status := "SUCCESS"

section Final

variable (hw : WellFormed s.db.history) (hm : Matching capture.units s.db) (hdone : AllDone capture s)

include hw hm hdone

theorem all_success {r : HistoryRow} (hr : r ∈ s.db.history) : r.status = "SUCCESS" := by
  obtain ⟨u, hu, ht⟩ := hm r hr
  obtain ⟨r', hr', hid, hs⟩ := hdone u hu
  rw [eq_of_id hw.ids hr hr' (ht.id.trans hid.symm)]
  exact isSuccess_iff.1 hs

theorem progress_nil (hg : Good s.db) : s.db.progress = [] := by
  apply List.eq_nil_iff_forall_not_mem.2
  intro p hp
  obtain ⟨r, hr, -, hact⟩ := hg.progress.owners p hp
  have hsucc := all_success hw hm hdone hr
  rw [isActive_iff.1 hact] at hsucc
  exact absurd hsucc (by decide)

theorem history_length : s.db.history.length = capture.units.length := by
  have hperm : (s.db.history.map (·.migrationId)).Perm (capture.units.map (·.id)) := by
    apply (List.perm_ext_iff_of_nodup hw.ids capture.distinct).2
    intro id
    constructor
    · intro h
      obtain ⟨r, hr, rfl⟩ := List.mem_map.1 h
      obtain ⟨u, hu, ht⟩ := hm r hr
      exact List.mem_map.2 ⟨u, hu, ht.id.symm⟩
    · intro h
      obtain ⟨u, hu, rfl⟩ := List.mem_map.1 h
      obtain ⟨r, hr, hid, -⟩ := hdone u hu
      exact List.mem_map.2 ⟨r, hr, hid⟩
  simpa using hperm.length_eq

theorem entry_eq (hs : Sourced rows capture.units s.db) (hp : Persists rows s.db.history) {r : HistoryRow}
    (hr : r ∈ s.db.history) (hu : unit ∈ capture.units) (ht : Tells unit r) :
    HistoryRow.entry r = finalEntry rows unit := by
  have hfirst : r.firstFingerprint =
      ((rows.find? fun r => r.migrationId == unit.id).map (·.firstFingerprint)).getD unit.fingerprint := by
    cases hf : rows.find? fun r => r.migrationId == unit.id with
    | none =>
        rcases hs r hr with ⟨r₀, hr₀, hid⟩ | ⟨u, hmem, hid, hfp⟩
        · have hno := List.find?_eq_none.1 hf r₀ hr₀
          rw [hid, ht.id] at hno
          simp at hno
        · have hsame : u = unit := List.inj_on_of_nodup_map capture.distinct hmem hu (hid.trans ht.id)
          rw [← hfp, hsame]
          rfl
    | some r₀ =>
        have hid₀ : r₀.migrationId = unit.id := by simpa using List.find?_some hf
        obtain ⟨i, hi⟩ := List.mem_iff_getElem?.1 (List.mem_of_find?_eq_some hf)
        obtain ⟨r', hr', ⟨-, hid, -, hfirst, -⟩, -⟩ := hp i r₀ hi
        have hsame : r = r' := eq_of_id hw.ids hr (List.mem_of_getElem? hr') (by rw [ht.id, hid, hid₀])
        rw [hsame, hfirst]
        rfl
  simp only [HistoryRow.entry, finalEntry, Entry.mk.injEq]
  exact ⟨ht.seq, ht.id, ht.fingerprint, hfirst, ht.language, ht.mode, all_success hw hm hdone hr⟩

theorem recorded_eq (hs : Sourced rows capture.units s.db) (hp : Persists rows s.db.history) :
    recorded s.db = capture.units.map (finalEntry rows) := by
  have hlen : (sortBySeq s.db.history).length = capture.units.length := by
    rw [(sortBySeq_perm _).length_eq, history_length hw hm hdone]
  have hseqs := map_seq_eq_iff.2 hw.seqs
  apply List.ext_getElem
  · simp [recorded, hlen]
  · intro i h₁ h₂
    have hi : i < (sortBySeq s.db.history).length := by simpa [recorded] using h₁
    have hseq : (sortBySeq s.db.history)[i].seq = (i : Int) + 1 := by
      have hget : ((sortBySeq s.db.history).map (·.seq))[i]? = some ((i : Int) + 1) := by
        rw [hseqs, positions, List.getElem?_map, List.getElem?_range' hi]
        simp
        omega
      rw [List.getElem?_map, List.getElem?_eq_getElem hi] at hget
      exact Option.some.inj hget
    have hr : (sortBySeq s.db.history)[i] ∈ s.db.history := (sortBySeq_perm _).mem_iff.1 (List.getElem_mem hi)
    obtain ⟨u, hu, ht⟩ := hm _ hr
    have hget := getElem?_of_unit hu ht.seq.symm
    have hidx : ((sortBySeq s.db.history)[i].seq - 1).toNat = i := by
      rw [hseq]
      omega
    rw [hidx] at hget
    obtain ⟨hlt, hget⟩ := List.getElem?_eq_some_iff.1 hget
    simp only [recorded, List.getElem_map, hget]
    exact entry_eq hw hm hdone hs hp hr hu ht

end Final

/-- A namespace in which a run has ended with exit 0. -/
structure Finished (input : Input) (d : Db) : Prop where
  complete : Complete d
  good : Good d
  done : ∀ unit ∈ input.capture.units, ∃ r ∈ d.history, r.migrationId = unit.id ∧ r.isSuccess = true
  matching : input.recoverId = none → Matching input.capture.units d
  checked : Settles (preflight input input.capture.units) (.ok ())
  bound : verifyBindings input.config (markerFound d) = .ok ()

/-- The rows of a namespace that a plan is accepted for are in order from the start. -/
theorem good_of_accepts (h : Accepts input d d' plan) : Good d := by
  have hrule : Rule input.capture (stored d') := rule_of_plan (planFor_ok h.planned).1
  obtain ⟨hhist, hprog⟩ : d'.history = d.history ∧ d'.progress = d.progress := by
    rcases h.opened.within with rfl | ⟨-, -, hst⟩
    · exact ⟨rfl, rfl⟩
    · exact ⟨hst.rows.1, hst.rows.2.1⟩
  have hw : WellFormed d'.history := (historyValid_iff.2 hrule.history).perm (stored_perm d')
  have hmarker : ∀ m ∈ d.marker, m.layoutVersion = layoutVersion := by
    rcases h.opened.within with rfl | ⟨-, hu, -⟩
    · obtain ⟨m, hm, -⟩ := h.opened.complete.markerFound
      intro m' hm'
      apply hrule.layout m'
      change d'.marker.head? = some m'
      rw [hm] at hm' ⊢
      rw [List.mem_singleton.1 hm']
      rfl
    · rw [hu.marker]
      exact fun m hm => absurd hm List.not_mem_nil
  have hp : (sortedProgress d').Perm d'.progress := List.perm_insertionSort _ _
  refine ⟨⟨?_, hmarker⟩, hhist ▸ hw⟩
  rw [← hhist, ← hprog]
  refine ⟨(hp.map _).nodup_iff.1 hrule.progress.keys, fun q hq => hrule.progress.values q (hp.mem_iff.2 hq), ?_⟩
  intro q hq
  obtain ⟨r, hr, hact, hid⟩ := hrule.progress.owned q (hp.mem_iff.2 hq)
  exact ⟨r, mem_stored.1 hr, hid, isActive_iff.2 hact⟩

/-- A run that exits 0 has found the marker row if there was one. -/
theorem unmarked_of_ok {os : List Outcome} {x : Except Exc Report × Local}
    (hx : result (serve input.adapter) os (Engine.run input {}) s.afresh = some x) (hok : exitOf x = .ok)
    (hn : markerFound s.db = none) : s.db.marker = [] := by
  by_contra hm
  have hA : Answers False fun (_ : Request) (_ : Session) (_ : Outcome) => True := fun h => h.elim
  have hmigrate (s' : Session) (hs' : AtRest s.db s') :
      wp (serve input.adapter) (fun _ _ _ => True) (fun _ _ => True) (migrate input) (fun r _ _ => r ≠ .ok ())
      {} s' := by
    apply (wp_bind _ _).2
    apply wp_mono (wp_openNamespace_marked hs' ⟨rfl, rfl⟩ hn hm)
    intro r l s₁ h
    cases r with
    | error e => nofun
    | ok u => exact absurd rfl h
  have hwp : wp (serve input.adapter) (fun _ _ _ => True) (fun _ _ => True) (Engine.run input) _ {} s.afresh :=
    wp_run_of_migrate (atRest_afresh s) hA (fun _ _ _ _ => trivial) hmigrate fun _ _ _ _ _ _ _ _ => trivial
  rcases result_wp hwp os (fun _ _ => trivial) hx with ⟨r, l, s₁, hr, -, hexit⟩ | ⟨-, -, hexit⟩
  · cases r with
    | ok u => exact hr rfl
    | error e => exact terminalExit_ne_ok e l (hexit.symm.trans hok)
  · rw [hok] at hexit
    cases hexit

theorem finished_of_ok (os : List Outcome) {x : Except Exc Report × Local}
    (hx : result (serve input.adapter) os (Engine.run input {}) s.afresh = some x) (hok : exitOf x = .ok) :
    Finished input (final (serve input.adapter) os (Engine.run input {}) s.afresh).db := by
  have hA : Answers False fun (_ : Request) (_ : Session) (_ : Outcome) => True := fun h => h.elim
  have hunmarked := unmarked_of_ok hx hok
  have hran : wp (serve input.adapter) (fun _ _ _ => True) (Careful input s.db) (Engine.run input)
      (Ran input s.db False) {} s.afresh := Acceptance.wp_run hA (atRest_afresh s) fun _ => hunmarked
  have hframe : Frame (Good s.db) s.db.history s.afresh := Holds.of_none ⟨rfl, fun hg => hg.toDecent⟩ rfl
  have hend : wp (serve input.adapter) (fun _ _ _ => True) (Label input (Good s.db)) (Engine.run input) _ {} s.afresh :=
    Runs.wp_run hframe (fun hg => hg.history) ⟨rfl, fun id => List.not_mem_nil⟩
  have hmatching (hr : input.recoverId = none) :
      Matching input.capture.units (final (serve input.adapter) os (Engine.run input {}) s.afresh).db := by
    have hkeeps (u : CapturedUnit) (hu : u ∈ input.capture.units) (op : Op) (h : Writes u op) :
        Keeps (Matching input.capture.units) op :=
      h.matching hu fun v hv hid => List.inj_on_of_nodup_map input.capture.distinct hv hu hid
    exact (run_keeps (D := fun _ => True) (fun _ _ => trivial) (fun _ _ hp => matching_of_plan hr hp)
      (fun _ _ op _ => keeps_true op) hkeeps hunmarked os).2 x hx hok
  rcases result_wp hran os (fun _ _ => trivial) hx with ⟨r, l, s₁, hreached, hdb, hexit⟩ | ⟨-, -, hexit⟩
  · rw [hok] at hexit
    cases r with
    | error e => exact absurd hexit.symm (terminalExit_ne_ok e l)
    | ok u =>
        cases hreached with
        | stopped h _ _ => cases h
        | unplanned h _ _ _ => cases h
        | accepted h hst =>
            have hcomplete := SameStorage.complete hst h.opened.complete
            have hbound := SameStorage.bound hst (Storage.Opened.bound h.opened)
            rw [← hdb] at hcomplete hbound
            have hg : Good s.db := good_of_accepts h
            have hgood := (run_label (p := True) input os fun _ => hg).2 trivial
            have hdone : AllDone input.capture (final (serve input.adapter) os (Engine.run input {}) s.afresh) :=
              (result_wp hend os (fun _ _ => trivial) hx).done hok
            exact ⟨hcomplete, hgood, hdone, hmatching, h.checked, hbound.2⟩
  · rw [hok] at hexit
    cases hexit

variable {t : Session} {os : List Outcome} {x : Except Exc Report × Local}

/-- Whatever interruptions and repetitions lead there: once a run without
`--recover` exits 0, the history tells of every migration what the manifest and the
rows at the start determine, and no progress is left. -/
theorem reruns_converge (hs : Sane s.db) (h : Retries input.adapter input.capture s t)
    (hr : input.recoverId = none)
    (hx : result (serve input.adapter) os (Engine.run input {}) t.afresh = some x) (hok : exitOf x = .ok) :
    recorded (final (serve input.adapter) os (Engine.run input {}) t.afresh).db =
        input.capture.units.map (finalEntry s.db.history) ∧
      (final (serve input.adapter) os (Engine.run input {}) t.afresh).db.progress = [] := by
  have hfin := finished_of_ok os hx hok
  have hnext : Retries input.adapter input.capture s (final (serve input.adapter) os (Engine.run input {}) t.afresh) :=
    .run input rfl rfl os h
  have hw := hfin.good.history
  have hm := hfin.matching hr
  constructor
  · exact recorded_eq hw hm hfin.done (hnext.sourced hs) hnext.sequence.persists
  · exact progress_nil hw hm hfin.done hfin.good

end Retries

section Idle

theorem within_complete (h : Within input d d') (hd : Complete d) : d' = d := by
  rcases h with h | ⟨-, hu, -⟩
  · exact h
  · have hm := hd.marker
    rw [hu.marker] at hm
    cases hm

/-- Where nothing is left to do, a run does nothing, and it succeeds if its checks do. -/
theorem wp_migrate_idle (hA : Answers p A) (hs : AtRest d s) (hl : Poised l) (hd : Complete d)
    (hnone : ∀ plan, planFor input d = .ok plan → plan.pending = []) :
    wp (serve input.adapter) A (fun _ s => s.db = d) (migrate input)
      (fun r _ s => s.db = d ∧ (p → (∃ plan, Accepts input d d plan) → r = .ok ())) l s := by
  have hpermits : Permits (fun _ s => s.db = d) input d := by
    constructor
    · exact fun s h op l _ => within_complete h hd
    · exact fun name l s h _ => within_complete h hd
  have hmarked : markerFound d = none → d.marker = [] := by
    obtain ⟨m, -, hm⟩ := hd.markerFound
    intro hn
    rw [hn] at hm
    cases hm
  apply (wp_bind _ _).2
  apply wp_mono (wp_openNamespace hA hpermits hs hl fun _ => hmarked)
  intro r l₁ s₁ h
  cases r with
  | error e =>
      refine ⟨within_complete h.1 hd, ?_⟩
      rintro hp ⟨plan, ha⟩
      cases h.2 hp with
      | blocked _ hu _ =>
          have hm := hd.marker
          rw [hu.marker] at hm
          cases hm
      | broken _ hu _ => exact absurd hu hd.inspected
      | refused _ href => exact absurd href (not_refused ha)
  | ok u =>
      obtain ⟨-, d₁, ho, hs₁, hl₁⟩ := h
      obtain rfl := within_complete ho.within hd
      apply (wp_bind _ _).2
      apply wp_mono (Snapshots.wp_buildPlan (fun s h op l _ => h) hA hs₁ hl₁ hd)
      intro r l₂ s₂ h
      cases r with
      | error e =>
          refine ⟨h.1, ?_⟩
          rintro hp ⟨plan, ha⟩
          obtain ⟨-, m, -, hm⟩ := h.2 hp
          rw [ha.planned] at hm
          cases hm
      | ok plan =>
          obtain ⟨hplan, hs₂, hl₂⟩ := h
          apply (wp_bind _ _).2
          apply wp_mono (log_at_rest (E := fun _ _ => False) hs₂ hA hs₂.db)
          intro r l₃ s₃ h
          cases r with
          | error e => exact ⟨h.1, fun hp _ => (h.2 hp).elim⟩
          | ok u =>
              dsimp only
              rw [hnone plan hplan]
              exact ⟨h.2.db, fun _ _ => rfl⟩

theorem pending_of_finished {input' : Input} (h : Finished input d) (hc : input'.capture = input.capture)
    (hp : planFor input' d = .ok plan) : plan.pending = [] := by
  have hb := (planFor_ok hp).1
  rw [Reporting.pending_of_plan hb (stored_perm d), Reporting.pendingUnits, hc]
  apply List.drop_eq_nil_of_le
  have hids : (input.capture.units.map (·.id)) ⊆ (d.history.filter (·.isSuccess)).map (·.migrationId) := by
    intro id hid
    obtain ⟨u, hu, rfl⟩ := List.mem_map.1 hid
    obtain ⟨r, hr, hrid, hsucc⟩ := h.done u hu
    exact List.mem_map.2 ⟨r, List.mem_filter.2 ⟨hr, hsucc⟩, hrid⟩
  have hle := (List.subperm_of_subset input.capture.distinct hids).length_le
  simpa using hle

/-- What has been finished is still planned for, with nothing pending. -/
theorem planFor_finished (h : Finished input s.db) (hr : input.recoverId = none) :
    ∃ plan, planFor input s.db = .ok plan := by
  have hw := h.good.history
  have hm := h.matching hr
  have hsucc {r : HistoryRow} (hr : r ∈ (stored s.db).history) : r.status = "SUCCESS" :=
    all_success hw hm h.done (mem_stored.1 hr)
  have hprogress : (stored s.db).progress = [] := by
    change sortedProgress s.db = []
    rw [sortedProgress, progress_nil hw hm h.done h.good]
    rfl
  have hrule : Rule input.capture (stored s.db) := by
    refine ⟨?_, historyValid_iff.1 (hw.perm (stored_perm s.db).symm), ?_, ?_, ?_, ?_⟩
    · exact fun m hm => h.good.marker m (List.mem_of_mem_head? hm)
    · rw [hprogress]
      exact ⟨List.nodup_nil, fun p hp => absurd hp List.not_mem_nil, fun p hp => absurd hp List.not_mem_nil⟩
    · rw [(stored_perm s.db).length_eq, history_length hw hm h.done]
    · intro r hr _
      obtain ⟨u, hu, ht⟩ := hm r (mem_stored.1 hr)
      exact ⟨u, hu, ht.seq.symm, ht.id.symm, ht.language.symm, ht.mode.symm, ht.fingerprint.symm⟩
    · intro r hr hact
      rw [hsucc hr] at hact
      exact absurd hact (by decide)
  obtain ⟨plan, hplan⟩ := plan_of_rule hrule
  have hnone : plan.active = none := by
    cases ha : plan.active with
    | none => rfl
    | some r =>
        obtain ⟨hmem, hact⟩ := ((plan_planned hplan).active r).1 ha
        rw [hsucc hmem] at hact
        exact absurd hact (by decide)
  refine ⟨plan, ?_⟩
  rw [planFor, hplan]
  change (admission input plan >>= fun _ => pure plan) = _
  rw [admission, hr]
  dsimp only
  rw [requireNoRecoveryNeeded, hnone]
  cases plan.activeFingerprintChanged <;> rfl

variable {t : Session} {x : Except Exc Report × Local} {os : List Outcome}

/-- A run of the same manifest, cut anywhere, leaves a finished namespace as it is. -/
theorem idle_run {input' : Input} (h : Finished input s.db) (hc : input'.capture = input.capture) (os : List Outcome) :
    (∀ y ∈ trace (serve input'.adapter) os (Engine.run input' {}) s.afresh,
      y.before.db = s.db ∧ ∀ id attempt, y.request.op ≠ .invoke id attempt) ∧
      (final (serve input'.adapter) os (Engine.run input' {}) s.afresh).db = s.db := by
  have hA : Answers False fun (_ : Request) (_ : Session) (_ : Outcome) => True := fun h => h.elim
  have hwp : wp (serve input'.adapter) (fun _ _ _ => True) (fun _ s' => s'.db = s.db) (Engine.run input') _
      {} s.afresh :=
    wp_run_of_migrate (atRest_afresh s) hA (fun q s' hs _ => hs)
    (fun s' hs' => wp_migrate_idle hA hs' ⟨rfl, rfl⟩ h.complete fun plan hp => pending_of_finished h hc hp)
    fun r l s' hR q s'' hs _ => hs.trans hR.1
  have hbefore := (play_wp hwp os fun _ _ => trivial).1
  constructor
  · intro y hy
    refine ⟨hbefore y hy, ?_⟩
    intro id attempt hop
    obtain ⟨u, hu, rfl, hinvoked⟩ := (run_forward input' os s y hy).invoked id attempt hop
    rw [hc] at hu
    obtain ⟨r, hr, hid, hsucc⟩ := h.done u hu
    have hact := hinvoked.unfinished r (by rw [hbefore y hy]; exact hr) hid
    rw [HistoryRow.isActive, isSuccess_iff.1 hsucc] at hact
    exact absurd hact (by decide)
  · apply final_wp hwp os (fun _ _ => trivial) fun _ _ h => h
    rintro x s' (⟨r, l, s₁, hR, hdb, -⟩ | ⟨-, hdb, -⟩)
    · exact hdb.trans hR.1
    · exact hdb

theorem Retries.idle (hf : Finished input s.db) (h : Retries adapter input.capture s s') : s'.db = s.db := by
  induction h with
  | refl => rfl
  | run input' ha hc os h ih =>
      subst ha
      rw [← ih] at hf
      exact ((idle_run hf hc os).2).trans ih

/-- Once a run has exited 0, runs of the same manifest leave everything as it is and
run no migration code, wherever they are cut, and when all its calls are answered
the same run exits 0 again. -/
theorem rerun_idle (hx : result (serve input.adapter) os (Engine.run input {}) s.afresh = some x)
    (hok : exitOf x = .ok)
    (h : Retries input.adapter input.capture (final (serve input.adapter) os (Engine.run input {}) s.afresh) t) :
    t.db = (final (serve input.adapter) os (Engine.run input {}) s.afresh).db ∧
      (∀ input' : Input, input'.adapter = input.adapter → input'.capture = input.capture → ∀ os',
        ∀ y ∈ trace (serve input.adapter) os' (Engine.run input' {}) t.afresh,
          y.before.db = t.db ∧ ∀ id attempt, y.request.op ≠ .invoke id attempt) ∧
      (input.recoverId = none → ∀ os', AllAnswered os' →
        exitOf (whole input.adapter (Engine.run input) os' t.afresh).1 = .ok) := by
  have hfin := finished_of_ok os hx hok
  have hsame := h.idle hfin
  rw [← hsame] at hfin
  refine ⟨hsame, ?_, ?_⟩
  · intro input' ha hc os'
    rw [← ha]
    exact (idle_run hfin hc os').1
  · intro hr os' ho
    obtain ⟨plan, hp⟩ := planFor_finished hfin hr
    have haccepts : ∃ plan, Accepts input t.db t.db plan :=
      ⟨plan, hfin.checked, ⟨.inl rfl, hfin.complete, hfin.bound⟩, hp⟩
    have hwp : wp (serve input.adapter) (fun _ _ o => Answered o) (fun _ s' => s'.db = t.db) (Engine.run input) _
        {} t.afresh :=
      wp_run_of_migrate (atRest_afresh t) answers_answered (fun q s' hs _ => hs)
      (fun s' hs' => wp_migrate_idle answers_answered hs' ⟨rfl, rfl⟩ hfin.complete
        fun plan hp => pending_of_finished hfin rfl hp)
      fun r l s' hR q s'' hs _ => hs.trans hR.1
    rcases whole_answered hwp ho with ⟨r, l, s₁, hR, -, hexit⟩ | ⟨hn, -⟩
    · rw [hexit, hR.2 trivial haccepts]
      rfl
    · exact absurd trivial hn

end Idle

section Example

def soleRestartable : Input := soleRun .sqlite .restartable (.ret .nothing)

def cutAdmitted : Session :=
  final (serve .sqlite) (List.replicate 32 { now := 1 }) (Engine.run soleRestartable {}) (newNamespace .sqlite).afresh

def nextRun : List Outcome := List.replicate 60 { now := 2 }

theorem newNamespace_sane : Sane (newNamespace .sqlite).db := by
  refine .complete ⟨?_, by decide⟩
  intro name
  cases name <;> rfl

theorem cutAdmitted_retries :
    Retries soleRestartable.adapter soleRestartable.capture (newNamespace .sqlite) cutAdmitted :=
  .run soleRestartable rfl rfl (List.replicate 32 { now := 1 }) .refl

theorem nextRun_ok {s : Session}
    (h : (result (serve .sqlite) nextRun (Engine.run soleRestartable {}) s.afresh).map exitOf = some .ok) :
    ∃ x, result (serve soleRestartable.adapter) nextRun (Engine.run soleRestartable {}) s.afresh = some x ∧
    exitOf x = .ok :=
  Option.map_eq_some_iff.1 h

theorem reruns_converge_cutAdmitted : cutAdmitted.db.history.map (·.status) = ["ACTIVE"] ∧
    recorded (final (serve .sqlite) nextRun (Engine.run soleRestartable {}) cutAdmitted.afresh).db =
      soleRestartable.capture.units.map (finalEntry []) := by
  obtain ⟨x, hx, hok⟩ := nextRun_ok (s := cutAdmitted) (by decide +kernel)
  refine ⟨by decide +kernel, ?_⟩
  exact (reruns_converge newNamespace_sane cutAdmitted_retries rfl hx hok).1

theorem ample_answered : AllAnswered fun _ => {} :=
  fun _ => ⟨rfl, rfl⟩

theorem rerun_idle_cutAdmitted :
    exitOf (whole .sqlite (Engine.run soleRestartable) (fun _ => {})
      (final (serve .sqlite) nextRun (Engine.run soleRestartable {}) cutAdmitted.afresh).afresh).1 = .ok := by
  obtain ⟨x, hx, hok⟩ := nextRun_ok (s := cutAdmitted) (by decide +kernel)
  exact (rerun_idle hx hok .refl).2.2 rfl _ ample_answered

end Example

end Migr8.Convergence
