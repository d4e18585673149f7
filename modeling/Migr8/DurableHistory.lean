import Migr8.Runs
import Migr8.PlanRule

namespace Migr8.DurableHistory

open Errors Model Driver Database World Adapters Context Engine StateValidate Rules Obedience Sessions Shape Forward
open Frames Plans PlanRule Execution Runs Lib.Process
open Lib.Interaction (Exchange trace final result play_wp final_wp)

variable {adapter : Adapter} {s s' : Session}

/-- `s'` is what a sequence of runs on one namespace makes of `s`. A run may be
cut anywhere, and the next one begins when its server session has ended. -/
inductive Sequence (adapter : Adapter) (s : Session) : Session → Prop
  | refl : Sequence adapter s s
  | run {s' : Session} (input : Input) (ha : input.adapter = adapter) (os : List Outcome)
      (h : Sequence adapter s s') :
      Sequence adapter s (final (serve adapter) os (Engine.run input {}) s'.afresh)

structure Initialized (d : Db) : Prop where
  marker : ∃ m, d.marker = [m] ∧ m.layoutVersion = layoutVersion
  history : d.history = []
  progress : d.progress = []

structure Accepted (d : Db) : Prop where
  validated : validateSnapshotShape ⟨d.history, d.progress, d.marker.head?⟩ = .ok ()
  positions : (d.history.map (·.seq)).Perm (positions d.history.length)
  ids : (d.history.map (·.migrationId)).Nodup
  oneActive : ∀ r ∈ d.history, ∀ r' ∈ d.history, r.isActive = true → r'.isActive = true → r = r'
  active : ∀ r ∈ d.history, r.isActive = true → r.seq = d.history.length ∧ r.mode = Mode.restartable.value ∧
    (∃ n, r.attempt = some n ∧ 1 ≤ n) ∧ r.finishedAt = none
  success : ∀ r ∈ d.history, r.isSuccess = true → r.finishedAt.isSome = true ∧
    (r.mode = Mode.atomic.value → r.attempt = none) ∧
    (r.mode = Mode.restartable.value → ∃ n, r.attempt = some n ∧ 1 ≤ n)
  progress : ∀ p ∈ d.progress, ∃ r ∈ d.history, r.migrationId = p.migrationId ∧ r.isActive = true

theorem Good.accepted {d : Db} (h : Good d) : Accepted d := by
  have hw := h.history
  refine ⟨?_, hw.seqs, hw.ids, ?_, fun r hr ha => ?_, fun r hr hsucc => ?_, h.progress.owners⟩
  · refine (validateSnapshotShape_ok_iff _).2 ⟨fun m hm => h.marker m ?_, hw, h.progress⟩
    exact List.mem_of_mem_head? hm
  · exact fun r hr r' hr' ha ha' => active_unique hw hr hr' ha ha'
  · obtain ⟨hmode, hattempt, hfin, -⟩ := (rowValid_iff.1 (hw.valid r hr)).active (isActive_iff.1 ha)
    exact ⟨hw.active r hr ha, hmode, hattempt, hfin⟩
  · obtain ⟨hfin, hattempt⟩ := (rowValid_iff.1 (hw.valid r hr)).success (isSuccess_iff.1 hsucc)
    exact ⟨Option.isSome_iff_ne_none.2 hfin, hattempt⟩

theorem Initialized.good {d : Db} (h : Initialized d) : Good d := by
  obtain ⟨m, hm, hv⟩ := h.marker
  have hw : WellFormed d.history := by
    rw [h.history]
    exact ⟨List.nodup_nil, .refl _, fun r hr => absurd hr List.not_mem_nil, fun r hr => absurd hr List.not_mem_nil⟩
  refine ⟨⟨?_, ?_⟩, hw⟩
  · rw [h.progress]
    exact ⟨List.nodup_nil, fun p hp => absurd hp List.not_mem_nil, fun p hp => absurd hp List.not_mem_nil⟩
  · intro x hx
    rw [hm] at hx
    rw [List.mem_singleton.1 hx]
    exact hv

/-- Every request of every run is labelled, and what a cut leaves is in order. -/
theorem run_label {p : Prop} (input : Input) (os : List Outcome) (hp : p → Good s.db) :
    (∀ x ∈ trace (serve input.adapter) os (Engine.run input {}) s.afresh, Label input p x.request x.before) ∧
      (p → Good (final (serve input.adapter) os (Engine.run input {}) s.afresh).db) := by
  have hs : Frame p s.db.history s.afresh := Holds.of_none ⟨rfl, fun h => (hp h).toDecent⟩ rfl
  have hw : p → WellFormed s.db.history := fun h => (hp h).history
  have hwp : wp (serve input.adapter) (fun _ _ _ => True) (Label input p) (Engine.run input) _ {} s.afresh :=
    wp_run hs hw ⟨rfl, fun id => List.not_mem_nil⟩
  refine ⟨(play_wp hwp os fun _ _ => trivial).1, fun h => ?_⟩
  refine final_wp hwp os (fun _ _ => trivial) (fun q s hq => hq.good h) fun x s hx => ?_
  obtain ⟨rows, hw', hd⟩ := hx.sound
  exact ⟨hd.decent h, hd.history ▸ hw' h⟩

theorem Sequence.good (h : Sequence adapter s s') (hs : Good s.db) : Good s'.db := by
  induction h with
  | refl => exact hs
  | run input ha os h ih =>
      subst ha
      exact (run_label (p := True) input os fun _ => ih).2 trivial

/-- Whatever happens to the calls of however many runs, what is stored after every
durable step is in order. -/
theorem durable_history_accepted (hs : Initialized s.db) (h : Sequence adapter s s') : Accepted s'.db :=
  Good.accepted (h.good hs.good)

section Example

def openTexts : Texts where
  readSqlEntry _ _ := .ok ""
  admitStatement _ _ _ := none
  admitDdl _ := none
  isProcedural _ := false
  isConcurrent _ := false
  readFile _ _ := .ok ""
  compilePython _ := .ok ()
  admitRequired _ := none

def soleUnit (mode : Mode) : CapturedUnit where
  id := "m1"
  position := 1
  language := .python
  mode := mode
  fingerprint := "fp1:0000000000000000000000000000000000000000000000000000000000000000"

def soleRun (adapter : Adapter) (mode : Mode) (code : Program) : Input where
  config := { adapter, targetNamespace := "main", lockProvider := "file", lockBinding := "lock" }
  texts := openTexts
  capture :=
    { units := [soleUnit mode]
      positions := by simp [soleUnit]
      distinct := by simp
      fingerprinted := by cases mode <;> decide }
  loadEntry _ := .ok fun _ => code

def newNamespace (adapter : Adapter) : Session where
  db := { marker := [
    { layoutVersion := layoutVersion
      adapter := adapter.name
      lockProvider := "file"
      lockBinding := "lock"
      targetNamespace := "main" }] }

theorem newNamespace_initialized (adapter : Adapter) : Initialized (newNamespace adapter).db :=
  ⟨⟨_, rfl, rfl⟩, rfl, rfl⟩

def unitAt (id : String) (position : Nat) (mode : Mode) (source : Char) : CapturedUnit where
  id := id
  position := position
  language := .python
  mode := mode
  fingerprint := "fp1:" ++ String.ofList (List.replicate 64 source)

/-- An atomic migration, a restartable one with a batch and a checkpoint, and another
atomic one. The source of the second may be amended, and is recovered then. -/
def threeUnits (amended : Bool) (afterBatch : Program) : Input where
  config := { adapter := .sqlite, targetNamespace := "main", lockProvider := "file", lockBinding := "lock" }
  texts := openTexts
  capture :=
    { units := [unitAt "m1" 1 .atomic '0', unitAt "m2" 2 .restartable (if amended then '2' else '1'),
        unitAt "m3" 3 .atomic '3']
      positions := by cases amended <;> decide
      distinct := by simp [unitAt]
      fingerprinted := by cases amended <;> decide +kernel }
  recoverId := if amended then some "m2" else none
  loadEntry unit := .ok fun _ =>
    if unit.mode = .atomic then .call (.execute "insert") fun _ => .ret .nothing
    else .call .transaction fun _ => .call (.enter 0) fun _ => .call (.execute "insert") fun _ =>
      .call (.progressSet "done" "1") fun _ => .call (.exit 0 false) fun _ => afterBatch

def answers (n : Nat) (now : Timestamp) : List Outcome := List.replicate n { now, steps := [.write "row"] }

def cutRun : Session :=
  final (serve .sqlite) (answers 55 1) (Engine.run (threeUnits false (.ret .nothing)) {}) (newNamespace .sqlite).afresh

def amendedRun : Session :=
  final (serve .sqlite) (answers 80 2) (Engine.run (threeUnits true (.ret .nothing)) {}) cutRun.afresh

theorem cutRun_sequence : Sequence .sqlite (newNamespace .sqlite) cutRun :=
  .run (threeUnits false (.ret .nothing)) rfl (answers 55 1) .refl

theorem amendedRun_sequence : Sequence .sqlite (newNamespace .sqlite) amendedRun :=
  .run (threeUnits true (.ret .nothing)) rfl (answers 80 2) cutRun_sequence

theorem durable_history_accepted_amendedRun : Accepted amendedRun.db ∧
    amendedRun.db.history.map (fun r => (r.migrationId, r.status, r.attempt)) =
      [("m1", "SUCCESS", none), ("m2", "SUCCESS", some 2), ("m3", "SUCCESS", none)] :=
  ⟨durable_history_accepted (newNamespace_initialized .sqlite) amendedRun_sequence, by decide +kernel⟩

end Example

/-- Every row stands where it stood, with what identifies it, and a SUCCESS row is
as it was. -/
def Persists (rows rows' : List HistoryRow) : Prop :=
  ∀ (i : Nat) r, rows[i]? = some r → ∃ r', rows'[i]? = some r' ∧ (r'.seq = r.seq ∧ r'.migrationId = r.migrationId ∧
    r'.mode = r.mode ∧ r'.firstFingerprint = r.firstFingerprint ∧ r'.startedAt = r.startedAt) ∧
    (r.isSuccess = true → r' = r)

theorem Persists.refl (rows : List HistoryRow) : Persists rows rows :=
  fun _ r hr => ⟨r, hr, ⟨rfl, rfl, rfl, rfl, rfl⟩, fun _ => rfl⟩

theorem Persists.trans {a b c : List HistoryRow} (h : Persists a b) (h' : Persists b c) : Persists a c := by
  intro i r hr
  obtain ⟨r', hr', ⟨h1, h2, h3, h4, h5⟩, hs⟩ := h i r hr
  obtain ⟨r'', hr'', ⟨k1, k2, k3, k4, k5⟩, hs'⟩ := h' i r' hr'
  refine ⟨r'', hr'', ⟨k1.trans h1, k2.trans h2, k3.trans h3, k4.trans h4, k5.trans h5⟩, fun hsucc => ?_⟩
  obtain rfl := hs hsucc
  exact hs' hsucc

theorem Persists.of_steps {recover : Option String} {op : Op} {rows rows' : List HistoryRow}
    (h : Steps recover op rows rows') : Persists rows rows' := by
  intro i r hr
  obtain ⟨r', hr', hstep⟩ := h.kept i r hr
  exact ⟨r', hr', hstep.identity, hstep.success⟩

structure MovesForward (input : Input) (x : Exchange Request Outcome Session) : Prop where
  steps : Steps input.recoverId x.request.op x.before.db.history
    (serve input.adapter x.request x.outcome x.before).2.db.history
  invoked : ∀ id attempt, x.request.op = .invoke id attempt →
    ∃ unit ∈ input.capture.units, unit.id = id ∧ Invoked unit attempt x.before.db.history

theorem run_forward (input : Input) (os : List Outcome) (s : Session) :
    ∀ x ∈ trace (serve input.adapter) os (Engine.run input {}) s.afresh, MovesForward input x := by
  intro x hx
  have hlabel := (run_label (p := False) (s := s) input os False.elim).1 x hx
  exact ⟨(hlabel.move x.outcome).steps, hlabel.invoked⟩

theorem Sequence.persists (h : Sequence adapter s s') : Persists s.db.history s'.db.history := by
  induction h with
  | refl => exact Persists.refl _
  | @run t input ha os h ih =>
      subst ha
      have hrun := Lib.Interaction.final_trans (T := fun (s s' : Session) => Persists s.db.history s'.db.history)
        (fun _ => Persists.refl _) (fun _ _ _ => Persists.trans) os
        fun x hx => Persists.of_steps (run_forward input os t x hx).steps
      exact ih.trans hrun

/-- Over any sequence of runs the history only moves forward, and so it does with
every request of a further run. -/
theorem history_moves_forward (h : Sequence adapter s s') : Persists s.db.history s'.db.history ∧
    ∀ input : Input, input.adapter = adapter → ∀ os,
      ∀ x ∈ trace (serve adapter) os (Engine.run input {}) s'.afresh, MovesForward input x := by
  refine ⟨h.persists, ?_⟩
  rintro input rfl os
  exact run_forward input os s'

theorem history_moves_forward_amendedRun : Persists cutRun.db.history amendedRun.db.history ∧
    cutRun.db.history.map (fun r => (r.migrationId, r.status, r.attempt)) =
      [("m1", "SUCCESS", none), ("m2", "ACTIVE", some 1)] ∧
    ∀ x ∈ trace (serve .sqlite) (answers 80 2) (Engine.run (threeUnits true (.ret .nothing)) {}) cutRun.afresh,
      MovesForward (threeUnits true (.ret .nothing)) x := by
  have hrerun : Sequence .sqlite cutRun amendedRun := .run (threeUnits true (.ret .nothing)) rfl (answers 80 2) .refl
  exact ⟨(history_moves_forward hrerun).1, by decide +kernel, (history_moves_forward cutRun_sequence).2 _ rfl _⟩

end Migr8.DurableHistory
