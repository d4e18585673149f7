import Migr8.Plans
import Migr8.Transitions

namespace Migr8.Planning

open Errors Model Latch Driver Database World Adapters Metadata Engine StateValidate Rules Discipline
open Obedience EngineObedience RunObedience Sessions Shape Forward Frames Transactions Plans Lib.Process

variable {A : Request → Session → Outcome → Prop} {adapter : Adapter} {p : Prop} {rows : List HistoryRow}
  {s : Session} {l : Local} {c : Config}

def Reads (rows : List HistoryRow) (r : Except Exc Snapshot) : Prop :=
  ∀ snapshot, r = .ok snapshot → snapshot.history = sortBySeq rows

theorem Reads.error (e : Exc) : Reads rows (.error e) := by
  rintro _ ⟨⟩

/-- A query of tables that has an answer. -/
theorem submit_read_ok {α : Type} {commitCapable : Bool} {o : Outcome} {tables : List ObjectName} {f : Db → α} {a : α}
    (h : (submit adapter commitCapable o (selectRows adapter tables f) id s).1 = .ok a) : a = f s.visible := by
  by_cases ht : tables.all s.visible.isTable = true
  · have hrun : selectRows adapter tables f s = read f s := by rw [selectRows, if_pos ht]
    unfold submit carryOut at h
    rw [hrun] at h
    exact (submit_pure_ok (f := fun s => f s.visible) h).1
  · have hrun : selectRows adapter tables f s = (.error (notATable adapter), s) := by rw [selectRows, if_neg ht]
    unfold submit carryOut at h
    rw [hrun] at h
    cases he : o.fault.exc with
    | some e => simp [he] at h
    | none => cases ha : s.aborted <;> simp [he, ha] at h

theorem visible_history (hs : Frame p rows s) : s.visible.history = rows := hs.visible.history

/-- What follows the history read does not change what it has returned. -/
theorem wp_readRest {decodeFirst : Run Unit} {readNext : Run (List ProgressRow)} {history : List HistoryRow}
    (hh : history = sortBySeq rows) :
    wp (serve adapter) A (fun _ _ => True) (do
      decodeFirst
      let progress ← readNext
      perform .decode
      let (marker, _) ← readMeta c
      return (⟨history, progress, marker⟩ : Snapshot)) (fun r _ _ => Reads rows r) l s := by
  refine wp_bind_top (fun _ l s => wp_bind_top (fun progress l s => wp_bind_top (fun _ l s => ?_) ?_) ?_) ?_
  · refine wp_bind_top (fun found l s => ?_) fun e _ _ => Reads.error e
    rintro snapshot ⟨⟩
    exact hh
  all_goals exact fun e _ _ => Reads.error e

theorem wp_readRowsSqlite (hs : Frame p rows s) :
    wp (serve .sqlite) A (fun _ _ => True) (readRowsSqlite c) (fun r _ _ => Reads rows r) l s := by
  refine wp_perform_bind trivial (fun o a _ hr => ?_) fun o e _ _ => Reads.error e
  refine wp_readRest ?_
  rw [submit_read_ok hr, visible_history hs]

theorem wp_readSnapshotSqlite (hs : Frame p rows s) :
    wp (serve .sqlite) A (fun _ _ => True) (readSnapshotSqlite c) (fun r _ _ => Reads rows r) l s := by
  have hrest (opened : Bool) (l : Local) (s : Session) (hs : Frame p rows s) :
      wp (serve .sqlite) A (fun _ _ => True) ((readRowsSqlite c).finally_ (onlyIf opened do
        let _ ← perform .snapshotCommit
        advanceEpoch)) (fun r _ _ => Reads rows r) l s := by
    refine (wp_finally _ _).2 (wp_mono (wp_readRowsSqlite hs) ?_)
    intro r l s hr
    refine wp_mono (wp_top _) ?_
    rintro (e | u) l s -
    · exact Reads.error e
    · exact hr
  refine wp_perform_bind trivial (fun o status _ hr => ?_) fun o e _ hr => by cases hr
  refine (wp_bind _ _).2 ((wp_onlyIf _ _).2 ?_)
  split
  · refine wp_perform_bind trivial (fun o a _ _ => ?_) fun o e _ _ => Reads.error e
    exact hrest _ _ _ (hs.serve trivial)
  · exact hrest _ _ _ hs

theorem wp_execHistory (operation phase : String) (hs : Frame p rows s) :
    wp (serve adapter) A (fun _ _ => True) (exec c .readHistory operation phase) (fun r _ _ =>
      ∀ history, r = .ok history → history = sortBySeq rows) l s := by
  refine wp_exec (fun _ => trivial) ?_ (fun _ o history _ hr => ?_) ?_
  · rintro e - _ ⟨⟩
  · rintro _ ⟨⟩
    rw [submit_read_ok hr, visible_history hs]
  · rintro o e - - _ ⟨⟩

theorem wp_readRowsPostgres (hs : Frame p rows s) :
    wp (serve .postgres) A (fun _ _ => True) (readRowsPostgres c) (fun r _ _ => Reads rows r) l s := by
  refine (wp_bind _ _).2 (wp_mono (wp_execHistory _ _ hs) ?_)
  rintro (e | history) l s hh
  · exact Reads.error e
  · exact wp_readRest (hh history rfl)

theorem wp_readSnapshotPostgres (hs : Frame p rows s) :
    wp (serve .postgres) A (fun _ _ => True) (readSnapshotPostgres c) (fun r _ _ => Reads rows r) l s := by
  have hend (opened : Bool) (snapshot : Snapshot) (l : Local) (s : Session)
      (hr : snapshot.history = sortBySeq rows) :
      wp (serve .postgres) A (fun _ _ => True) (do
        onlyIf opened endSnapshotPostgres
        return snapshot) (fun r _ _ => Reads rows r) l s := by
    refine wp_bind_top (fun _ l s => ?_) fun e _ _ => Reads.error e
    rintro _ ⟨⟩
    exact hr
  have hrest (opened : Bool) (l : Local) (s : Session) (hs : Frame p rows s) :
      wp (serve .postgres) A (fun _ _ => True) (do
        let snapshot ← (readRowsPostgres c).tryCatch fun e => do
          let unusable ← World.get (sessionUnusableAfter e)
          onlyIf (opened && !unusable) endSnapshotPostgres
          Proc.throw e
        onlyIf opened endSnapshotPostgres
        return snapshot) (fun r _ _ => Reads rows r) l s := by
    refine (wp_bind _ _).2 ((wp_tryCatch _ _).2 (wp_mono (wp_readRowsPostgres hs) ?_))
    rintro (e | snapshot) l s hr
    · refine wp_bind_top (fun unusable l s => wp_bind_top (fun _ l s => ?_) ?_) ?_
      all_goals first | exact Reads.error e | exact fun e _ _ => Reads.error e
    · exact hend opened snapshot l s (hr snapshot rfl)
  refine wp_perform_bind trivial (fun o status _ hr => ?_) fun o e _ hr => by cases hr
  refine (wp_bind _ _).2 ((wp_onlyIf _ _).2 ?_)
  split
  · have hbegin (s : Session) (hs : Frame p rows s) : wp (serve .postgres) A (fun _ _ => True)
        (perform .snapshotBegin) (fun _ _ s => Frame p rows s) l s :=
      wp_perform.2 ⟨trivial, fun o _ => hs.serve trivial⟩
    refine wp_mono (hbegin _ hs) ?_
    rintro (e | u) l s hs
    · exact Reads.error e
    · exact hrest _ _ _ hs
  · exact hrest _ _ _ hs

theorem wp_readSnapshotOracle (hs : Frame p rows s) :
    wp (serve .oracle) A (fun _ _ => True) readSnapshotOracle (fun r _ _ => Reads rows r) l s := by
  refine wp_perform_bind trivial (fun o found _ hr => ?_) fun o e _ _ => Reads.error e
  have hf : found.1.history = sortBySeq rows := by
    rw [submit_read_ok hr, storedSnapshot, visible_history hs]
  refine wp_bind_top (fun _ l s => ?_) fun e _ _ => Reads.error e
  refine (wp_ite _ _ _).2 ?_
  split
  · exact Reads.error _
  · rintro _ ⟨⟩
    exact hf

theorem wp_readByAdapter (hs : Frame p rows s) :
    wp (serve c.adapter) A (fun _ _ => True) (match c.adapter with
      | .sqlite => readSnapshotSqlite c
      | .postgres => readSnapshotPostgres c
      | .oracle => readSnapshotOracle) (fun r _ _ => Reads rows r) l s := by
  cases c.adapter with
  | sqlite => exact wp_readSnapshotSqlite hs
  | postgres => exact wp_readSnapshotPostgres hs
  | oracle => exact wp_readSnapshotOracle hs

theorem wp_readSnapshot (hs : Frame p rows s) :
    wp (serve c.adapter) A (fun _ _ => True) (readSnapshot c) (fun r _ _ => Reads rows r) l s := by
  refine (wp_guarded _ _ _).2 ?_
  cases l.latch.error with
  | some e => exact Reads.error _
  | none =>
      refine wp_mono (wp_readByAdapter hs) ?_
      rintro (e | snapshot) l s hr
      · exact Reads.error _
      · exact hr

variable {input : Input}

/-- A plan that comes out of planning fits the durable history. -/
theorem wp_buildPlan (hs : Frame p rows s) (hw : p → WellFormed rows) :
    wp (serve input.adapter) A (Label input p) (Engine.buildPlan input) (fun r l' s' =>
      Frame p rows s' ∧ Told r l'.latch ∧ ∀ plan, r = .ok plan →
        ∃ done, Ready input.capture.units input.recoverId plan.active done plan.pending rows) l s := by
  have hobeys : Obeys input.adapter (FrameOp (ownsActive rows)) any (Engine.buildPlan input) :=
    Obeys.buildPlan fun _ h => frameOp_of_snapshotOp h
  have hframe := wp_frame (A := A) (hobeys l l.latch (Later.refl _) trivial) (fun _ h => h) hs hw
  have hvalue : wp (serve input.adapter) A (fun _ _ => True) (Engine.buildPlan input) (fun r _ _ =>
      ∀ plan, r = .ok plan →
        ∃ done, Ready input.capture.units input.recoverId plan.active done plan.pending rows) l s := by
    refine (wp_bind _ _).2 (wp_mono (wp_readSnapshot hs) ?_)
    rintro (e | snapshot) l s hr
    · rintro _ ⟨⟩
    · refine wp_liftError_bind (fun plan hb => wp_liftError_bind (fun _ ha => ?_) ?_) ?_
      · rintro _ ⟨⟩
        have hready := buildPlan_ready hb ha
        rw [hr snapshot rfl] at hready
        exact ⟨_, hready.perm (sortBySeq_perm rows)⟩
      · rintro e _ ⟨⟩
      · rintro e _ ⟨⟩
  refine wp_weaken (wp_mono (wp_and hframe hvalue) ?_) (fun _ _ _ h => h) fun _ _ h => h.1
  rintro r l' s' ⟨⟨⟨c, -, -, ht⟩, hs'⟩, h⟩
  exact ⟨hs', ht, h⟩

end Migr8.Planning
