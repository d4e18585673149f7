import Migr8.World

namespace Migr8.Sessions

open Errors Model Driver Database World

variable {α : Type} {adapter : Adapter} {D : Db → Prop} {s : Session} {o : Outcome}

/-- `D` holds of what is durable and of what an open transaction sees. -/
structure Holds (D : Db → Prop) (s : Session) : Prop where
  db : D s.db
  working : ∀ t, s.txn = some t → D t.working

theorem Holds.visible (h : Holds D s) : D s.visible := by
  unfold Session.visible
  cases ht : s.txn with
  | none => exact h.db
  | some t => exact h.working t ht

theorem Holds.of_none (hd : D s.db) (ht : s.txn = none) : Holds D s :=
  ⟨hd, fun t h => by rw [ht] at h; cases h⟩

theorem Holds.endTxn (h : Holds D s) : Holds D s.endTxn := Holds.of_none h.db rfl

theorem Holds.commitTxn (h : Holds D s) : Holds D s.commitTxn := by
  unfold Session.commitTxn
  cases ht : s.txn with
  | none => exact h
  | some t =>
      dsimp only
      split
      · exact h.endTxn
      · exact Holds.of_none (h.working t ht) rfl

theorem Holds.fail (h : Holds D s) : Holds D (s.fail adapter o) := by
  unfold Session.fail
  cases ht : s.txn with
  | none => exact h
  | some t =>
      cases adapter
      case sqlite => dsimp only; split <;> [exact h.endTxn; exact h]
      case oracle => exact h
      case postgres =>
        dsimp only
        split
        · refine ⟨h.db, ?_⟩
          rintro t' ⟨⟩
          exact h.working t ht
        · exact h

theorem Holds.put {d : Db} {engine : Bool} (h : Holds D s) (hd : D d) : Holds D (s.put adapter engine d) := by
  unfold Session.put
  cases ht : s.txn with
  | some t =>
      refine ⟨h.db, ?_⟩
      rintro t' ⟨⟩
      exact hd
  | none =>
      cases adapter
      case oracle =>
        refine ⟨h.db, ?_⟩
        rintro t' ⟨⟩
        exact hd
      all_goals exact Holds.of_none hd rfl

theorem Holds.record {w : Work} {d : Db} {engine : Bool} (h : Holds D s) (hd : D { d with data := d.data ++ [w] }) :
    Holds D (s.record adapter engine w d) :=
  ⟨(h.put hd).db, (h.put hd).working⟩

/-- A statement writes in the name of its scope and in the current invocation. -/
theorem Holds.step {scope : Scope}
    (hw : ∀ d tag, D d → D { d with data := d.data ++ [s.work scope (.statement tag)] }) (h : Holds D s)
    (step : Step) : Holds D (s.step adapter scope step) := by
  cases step with
  | write tag => exact h.record (hw _ _ h.visible)
  | rollback => cases adapter <;> [exact h; exact h.endTxn; exact h.endTxn]
  | commit chain =>
      cases ht : s.txn with
      | none => cases adapter <;> (simp only [Session.step, ht]; exact h)
      | some t =>
          have ht' := h.working t ht
          cases adapter <;> simp only [Session.step, ht]
          case sqlite => exact h
          all_goals
            split
            · exact h.endTxn
            · refine ⟨ht', fun t' h' => ?_⟩
              simp only [Option.ite_none_right_eq_some, Option.some.injEq] at h'
              rw [← h'.2]
              exact ht'

theorem Holds.steps {scope : Scope} (hw : ∀ d w, D d → D { d with data := d.data ++ [w] }) (steps : List Step)
    (h : Holds D s) : Holds D (s.steps adapter scope steps) := by
  unfold Session.steps
  induction steps generalizing s with
  | nil => exact h
  | cons step steps ih => exact ih (h.step (fun d _ => hw d _) step)

/-- A statement leaves alone what carrying it out, keeping a part of it, and its
failure all leave alone. -/
theorem submit_keeps {J : Session → Prop} {commitCapable : Bool} {run : Session → Except DriverError α × Session}
    {kept : Session → Session} (hs : J s) (hrun : J s → J (run s).2) (hkept : J s → J (kept s))
    (hfail : ∀ s, J s → J (s.fail adapter o)) : J (submit adapter commitCapable o run kept s).2 := by
  have hcarry : J (carryOut run s).2 := by
    unfold carryOut
    split
    · exact hs
    · exact hrun hs
  unfold submit
  split
  · split
    · next he => rw [he] at hcarry; exact hcarry
    · next he => rw [he] at hcarry; exact hfail _ hcarry
  · dsimp only
    split
    · exact hfail _ (hkept hs)
    · split
      · exact hcarry
      · exact hfail _ hs

theorem Holds.submit {commitCapable : Bool} {run : Session → Except DriverError α × Session} (h : Holds D s)
    (hrun : Holds D s → Holds D (run s).2) : Holds D (submit adapter commitCapable o run id s).2 :=
  submit_keeps h hrun id fun _ h => h.fail

theorem Holds.selectRows {tables : List ObjectName} {f : Db → α} (h : Holds D s) :
    Holds D (Database.selectRows adapter tables f s).2 := by
  unfold Database.selectRows
  split <;> exact h

theorem Holds.write {engine : Bool} {f : Db → Except DriverError (α × Db)}
    (hf : ∀ d, D d → ∀ a d', f d = .ok (a, d') → D d') (h : Holds D s) :
    Holds D (Database.write adapter engine f s).2 := by
  unfold Database.write
  split
  · exact h
  · next he => exact h.put (hf _ h.visible _ _ he)

def ledger (s : Session) : List (String × Option String) × Nat := (s.journal, s.invocation)

section Ledger

theorem ledger_put {engine : Bool} {d : Db} : ledger (s.put adapter engine d) = ledger s := by
  unfold Session.put
  split
  · rfl
  · split <;> rfl

theorem ledger_fail : ledger (s.fail adapter o) = ledger s := by
  unfold Session.fail
  split
  · rfl
  · cases adapter <;> dsimp only <;> first | rfl | (split <;> rfl)

theorem ledger_commitTxn : ledger s.commitTxn = ledger s := by
  unfold Session.commitTxn
  split
  · rfl
  · split <;> rfl

theorem ledger_record {engine : Bool} {w : Work} {d : Db} : ledger (s.record adapter engine w d) = ledger s :=
  ledger_put

theorem ledger_step {scope : Scope} (step : Step) : ledger (s.step adapter scope step) = ledger s := by
  cases step with
  | write tag => exact ledger_record
  | rollback => cases adapter <;> rfl
  | commit chain =>
      cases ht : s.txn <;> cases adapter <;> simp only [Session.step, ht]
      all_goals split <;> rfl

theorem ledger_steps {scope : Scope} (steps : List Step) : ledger (s.steps adapter scope steps) = ledger s := by
  unfold Session.steps
  induction steps generalizing s with
  | nil => rfl
  | cons step steps ih => exact ih.trans (ledger_step step)

theorem ledger_submit {commitCapable : Bool} {run : Session → Except DriverError α × Session}
    {kept : Session → Session} (hrun : ledger (run s).2 = ledger s) (hkept : ledger (kept s) = ledger s) :
    ledger (submit adapter commitCapable o run kept s).2 = ledger s :=
  submit_keeps (J := fun x => ledger x = ledger s) rfl (fun _ => hrun) (fun _ => hkept) fun _ h => ledger_fail.trans h

theorem ledger_write {engine : Bool} {f : Db → Except DriverError (α × Db)} :
    ledger (Database.write adapter engine f s).2 = ledger s := by
  unfold Database.write
  split
  · rfl
  · exact ledger_put

theorem ledger_serveCommit : ledger (serveCommit adapter o s).2 = ledger s := by
  unfold World.serveCommit
  split
  · split <;> [rfl; exact ledger_commitTxn]
  · dsimp only
    split
    · split <;> rfl
    · split <;> [exact ledger_commitTxn; (split <;> rfl)]

theorem ledger_selectRows {tables : List ObjectName} {f : Db → α} :
    ledger (selectRows adapter tables f s).2 = ledger s := by
  unfold selectRows
  split <;> rfl

theorem ledger_serve {q : Request} (hl : ∀ event id, q.op ≠ .log event id)
    (hi : ∀ id attempt, q.op ≠ .invoke id attempt) :
    ledger (serve adapter q o s).2 = ledger s := by
  obtain ⟨op, l⟩ := q
  cases op
  case log event id => exact absurd rfl (hl event id)
  case invoke id attempt => exact absurd rfl (hi id attempt)
  case connect | acquireLock | prepareStorage | decode | status | back | ended | releaseLock => rfl
  case objectsPresent | definitionProblems | checkRequired | readIdentity => exact ledger_submit rfl rfl
  case countMeta | readMarker | countHistory | countProgress | readHistory | readProgress | readSnapshot
      | progressGet => exact ledger_submit ledger_selectRows rfl
  case begin | snapshotBegin =>
    refine ledger_submit ?_ rfl
    unfold World.openTxn
    split <;> rfl
  case commit | snapshotCommit => exact ledger_serveCommit
  case rollback | closeRollback | closeConnection | discardConnection =>
    change ledger (serveRollback o s).2 = ledger s
    unfold serveRollback
    split
    · rfl
    · dsimp only
      split <;> rfl
  case establishIdentity =>
    refine ledger_submit ?_ rfl
    unfold World.assignIdentity
    split
    · split <;> rfl
    · rfl
  case createObject =>
    refine ledger_submit ?_ rfl
    unfold World.createObject
    dsimp only
    split
    · split <;> exact ledger_commitTxn
    · exact ledger_write
  case insertMarker | insertHistory | updateAttempt | completeActive | deleteProgress =>
    exact ledger_submit ledger_write rfl
  case progressSet =>
    refine ledger_submit ?_ rfl
    unfold World.setProgress
    split
    · exact ledger_record
    · rfl
  case statement => exact ledger_submit (ledger_steps _) (ledger_steps _)

end Ledger

/-- The op keeps `D` of every database it may write to. -/
def Keeps (D : Db → Prop) : Op → Prop
  | .createObject name => ∀ d, D d → D { d with layout := d.layout.create name }
  | .insertMarker row => ∀ d now, D d → D { d with marker := [{ row with initializedAt := some now }] }
  | .insertHistory i => ∀ d now, D d → d.admitsRow (i.row now) → D { d with history := d.history ++ [i.row now] }
  | .updateAttempt id fingerprint language runner => ∀ d now, D d →
      D (d.updateActive id (admitAttempt fingerprint language runner now)).2
  | .completeActive id toolVersion => ∀ d now, D d → D (d.updateActive id (completeRow toolVersion now)).2
  | .deleteProgress id => ∀ d, D d → D (d.deleteProgress id)
  | .progressSet scope key value => ∀ d now w, D d → d.admitsProgress ⟨scope.owner, key, value, some now⟩ →
      D { d with progress := upsert d.progress ⟨scope.owner, key, value, some now⟩, data := d.data ++ [w] }
  | .statement .. => ∀ d w, D d → D { d with data := d.data ++ [w] }
  | _ => True

theorem Holds.createObject {name : ObjectName} (hk : Keeps D (.createObject name)) (h : Holds D s) :
    Holds D (World.createObject adapter name s).2 := by
  unfold World.createObject
  dsimp only
  split
  · split <;> dsimp only
    · next he =>
        split at he
        · cases he
          exact ⟨hk _ h.commitTxn.db, h.commitTxn.working⟩
        · cases he
    · exact h.commitTxn
  · refine h.write fun d hd a d' he => ?_
    split at he
    · cases he
      exact hk d hd
    · cases he

theorem Holds.openTxn (h : Holds D s) : Holds D (openTxn adapter s).2 := by
  unfold World.openTxn
  split
  · refine ⟨h.db, ?_⟩
    rintro t ⟨⟩
    exact h.db
  · exact h

theorem Holds.assignIdentity (h : Holds D s) : Holds D (assignIdentity adapter s).2 := by
  unfold World.assignIdentity
  cases ht : s.txn with
  | some t =>
      dsimp only
      split
      · exact h
      · refine ⟨h.db, ?_⟩
        rintro t' ⟨⟩
        exact h.working t ht
  | none =>
      refine ⟨h.db, fun t h' => ?_⟩
      simp only [Option.ite_none_right_eq_some, Option.some.injEq] at h'
      rw [← h'.2]
      exact h.db

theorem Holds.serveCommit (h : Holds D s) : Holds D (serveCommit adapter o s).2 := by
  unfold World.serveCommit
  split
  · split
    · exact h
    · exact h.commitTxn
  · dsimp only
    split
    · split <;> [exact h.endTxn; exact h]
    · split
      · exact h.commitTxn
      · split <;> [exact h.endTxn; exact h]

theorem Holds.serveRollback (h : Holds D s) : Holds D (serveRollback o s).2 := by
  unfold World.serveRollback
  split
  · exact h.endTxn
  · dsimp only
    split <;> [exact h.endTxn; exact h]

theorem Holds.setProgress {scope : Scope} {key value : String} {now : Timestamp} {engine : Bool}
    (hk : Keeps D (.progressSet scope key value)) (h : Holds D s) :
    Holds D (World.setProgress adapter engine scope ⟨scope.owner, key, value, some now⟩ s).2 := by
  unfold World.setProgress
  split
  · next ha => exact h.record (hk _ _ _ h.visible ha)
  · exact h

/-- Everything the server does keeps what its writes keep. -/
theorem Holds.serve {q : Request} (hk : Keeps D q.op) (h : Holds D s) : Holds D (serve adapter q o s).2 := by
  obtain ⟨op, l⟩ := q
  cases op
  case log =>
    change Holds D (serveLog _ _ o s).2
    unfold serveLog
    split
    · exact h
    · exact ⟨h.db, h.working⟩
  case connect | acquireLock | prepareStorage | decode | status | back | ended | releaseLock => exact h
  case invoke => exact ⟨h.db, h.working⟩
  case objectsPresent | definitionProblems | checkRequired | readIdentity => exact h.submit id
  case countMeta | readMarker | countHistory | countProgress | readHistory | readProgress | readSnapshot
      | progressGet => exact h.submit fun h => h.selectRows
  case begin | snapshotBegin => exact h.submit fun h => h.openTxn
  case commit | snapshotCommit => exact h.serveCommit
  case rollback | closeRollback | closeConnection | discardConnection => exact h.serveRollback
  case establishIdentity => exact h.submit fun h => h.assignIdentity
  case createObject => exact h.submit fun h => h.createObject hk
  case insertMarker row =>
    refine h.submit fun h => h.write fun d hd a d' he => ?_
    unfold World.insertMarker at he
    split at he
    · cases he
      exact hk d _ hd
    · cases he
  case insertHistory i =>
    refine h.submit fun h => h.write fun d hd a d' he => ?_
    unfold World.insertHistory at he
    split at he
    · next ha =>
        cases he
        exact hk d _ hd ha
    · cases he
  case updateAttempt =>
    refine h.submit fun h => h.write ?_
    rintro d hd a d' ⟨⟩
    exact hk d _ hd
  case completeActive =>
    refine h.submit fun h => h.write ?_
    rintro d hd a d' ⟨⟩
    exact hk d _ hd
  case deleteProgress =>
    refine h.submit fun h => h.write ?_
    rintro d hd a d' ⟨⟩
    exact hk d hd
  case progressSet => exact h.submit fun h => h.setProgress hk
  case statement => exact submit_keeps h (fun h => h.steps hk _) (fun h => h.steps hk _) fun _ h => h.fail

end Migr8.Sessions
