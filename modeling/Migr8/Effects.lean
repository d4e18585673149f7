import Migr8.Sessions
import Migr8.Transactions

namespace Migr8.Effects

open Errors Model Driver Database World Sessions Transactions

variable {α : Type} {adapter : Adapter} {o : Outcome} {s s' s'' : Session}

/-- At most the database, the transaction and the identities given out differ. -/
def Touches (s s' : Session) : Prop := ∃ d t n, s' = { s with db := d, txn := t, nextXid := n }

section Touches

theorem Touches.refl (s : Session) : Touches s s := ⟨s.db, s.txn, s.nextXid, rfl⟩

theorem Touches.trans (h : Touches s s') (h' : Touches s' s'') : Touches s s'' := by
  obtain ⟨d, t, n, rfl⟩ := h
  obtain ⟨d', t', n', rfl⟩ := h'
  exact ⟨d', t', n', rfl⟩

theorem Touches.performed (h : Touches s s') : s'.performed = s.performed := by
  obtain ⟨d, t, n, rfl⟩ := h
  rfl

theorem Touches.invocation (h : Touches s s') : s'.invocation = s.invocation := by
  obtain ⟨d, t, n, rfl⟩ := h
  rfl

theorem Touches.broken (h : Touches s s') : s'.broken = s.broken := by
  obtain ⟨d, t, n, rfl⟩ := h
  rfl

theorem touches_endTxn : Touches s s.endTxn := ⟨s.db, none, s.nextXid, rfl⟩

theorem touches_commitTxn : Touches s s.commitTxn := by
  unfold Session.commitTxn
  cases s.txn with
  | none => exact Touches.refl s
  | some t =>
      dsimp only
      split
      · exact touches_endTxn
      · exact ⟨t.working, none, s.nextXid, rfl⟩

theorem touches_fail : Touches s (s.fail adapter o) := by
  unfold Session.fail
  cases s.txn with
  | none => exact Touches.refl s
  | some t =>
      cases adapter <;> dsimp only
      case oracle => exact Touches.refl s
      case sqlite =>
        split
        · exact touches_endTxn
        · exact Touches.refl s
      case postgres =>
        split
        · exact ⟨s.db, _, s.nextXid, rfl⟩
        · exact Touches.refl s

theorem touches_put {engine : Bool} {d : Db} : Touches s (s.put adapter engine d) := by
  unfold Session.put
  cases s.txn with
  | some t => exact ⟨s.db, _, s.nextXid, rfl⟩
  | none =>
      cases adapter
      case oracle => exact ⟨s.db, _, s.nextXid + 1, rfl⟩
      all_goals exact ⟨d, none, s.nextXid, rfl⟩

theorem touches_write {engine : Bool} {f : Db → Except DriverError (α × Db)} :
    Touches s (write adapter engine f s).2 := by
  unfold write
  split
  · exact Touches.refl s
  · exact touches_put

theorem touches_selectRows {tables : List ObjectName} {f : Db → α} : Touches s (selectRows adapter tables f s).2 := by
  unfold selectRows
  split <;> exact Touches.refl s

theorem touches_submit {commitCapable : Bool} {run : Session → Except DriverError α × Session}
    (h : Touches s (run s).2) : Touches s (submit adapter commitCapable o run id s).2 :=
  submit_keeps (J := Touches s) (Touches.refl s) (fun _ => h) (fun h => h) fun _ h => h.trans touches_fail

theorem touches_serveCommit : Touches s (serveCommit adapter o s).2 := by
  unfold serveCommit
  split
  · split
    · exact Touches.refl s
    · exact touches_commitTxn
  · dsimp only
    split
    · split <;> [exact touches_endTxn; exact Touches.refl s]
    · split
      · exact touches_commitTxn
      · split <;> [exact touches_endTxn; exact Touches.refl s]

theorem touches_serveRollback : Touches s (serveRollback o s).2 := by
  unfold serveRollback
  split
  · exact touches_endTxn
  · dsimp only
    split <;> [exact touches_endTxn; exact Touches.refl s]

theorem touches_openTxn : Touches s (openTxn adapter s).2 := by
  unfold openTxn
  split
  · exact ⟨s.db, _, s.nextXid, rfl⟩
  · exact Touches.refl s

theorem touches_assignIdentity : Touches s (assignIdentity adapter s).2 := by
  unfold assignIdentity
  cases s.txn with
  | some t =>
      dsimp only
      split
      · exact Touches.refl s
      · exact ⟨s.db, _, s.nextXid + 1, rfl⟩
  | none => exact ⟨s.db, _, s.nextXid + 1, rfl⟩

theorem touches_createObject {name : ObjectName} : Touches s (createObject adapter name s).2 := by
  unfold createObject
  dsimp only
  split
  · split
    · obtain ⟨d, t, n, h⟩ : Touches s s.commitTxn := touches_commitTxn
      rw [h]
      exact ⟨_, t, n, rfl⟩
    · exact touches_commitTxn
  · exact touches_write

def traces : Op → Bool
  | .log .. | .invoke .. | .statement .. | .progressSet .. => true
  | _ => false

theorem touches_serve {q : Request} (h : traces q.op = false) : Touches s (serve adapter q o s).2 := by
  obtain ⟨op, l⟩ := q
  cases op
  case log | invoke | statement | progressSet => cases h
  case connect | acquireLock | prepareStorage | decode | status | back | ended | releaseLock => exact Touches.refl s
  case objectsPresent | definitionProblems | checkRequired | readIdentity =>
    apply touches_submit
    exact Touches.refl s
  case countMeta | readMarker | countHistory | countProgress | readHistory | readProgress | readSnapshot | progressGet =>
    exact touches_submit touches_selectRows
  case begin | snapshotBegin => exact touches_submit touches_openTxn
  case commit | snapshotCommit => exact touches_serveCommit
  case rollback | closeRollback | closeConnection | discardConnection => exact touches_serveRollback
  case establishIdentity => exact touches_submit touches_assignIdentity
  case createObject => exact touches_submit touches_createObject
  case insertMarker | insertHistory | updateAttempt | completeActive | deleteProgress =>
    exact touches_submit touches_write

end Touches

section Owners

variable {owner : String} {scope : Scope} {X P : List Work} {R : List HistoryRow}

def workOf (owner : String) (works : List Work) : List Work := works.filter fun w => w.owner == owner

def rowsOf (owner : String) (d : Db) : List HistoryRow := d.history.filter fun r => r.migrationId == owner

theorem workOf_other {works new : List Work} (h : ∀ w ∈ new, w.owner ≠ owner) :
    workOf owner (works ++ new) = workOf owner works := by
  have hnone : new.filter (fun w => w.owner == owner) = [] := List.filter_eq_nil_iff.2 fun w hw => by simp [h w hw]
  rw [workOf, List.filter_append, hnone, List.append_nil]
  rfl

theorem workOf_own {works new : List Work} (h : ∀ w ∈ new, w.owner = owner) :
    workOf owner (works ++ new) = workOf owner works ++ new := by
  have hall : new.filter (fun w => w.owner == owner) = new := List.filter_eq_self.2 fun w hw => by simp [h w hw]
  rw [workOf, List.filter_append, hall]
  rfl

theorem work_step {step : Step} {item : Item} {scope' : Scope} :
    (s.step adapter scope step).work scope' item = s.work scope' item := by
  have hinv : (s.step adapter scope step).invocation = s.invocation := congrArg Prod.snd (ledger_step step)
  unfold Session.work
  rw [hinv]

theorem holds_steps {D : Db → Prop}
    (hw : ∀ d tag, D d → D { d with data := d.data ++ [s.work scope (.statement tag)] })
    (steps : List Step) (h : Holds D s) : Holds D (s.steps adapter scope steps) := by
  unfold Session.steps
  induction steps generalizing s with
  | nil => exact h
  | cons step steps ih =>
      apply ih
      · intro d tag hd
        rw [work_step]
        exact hw d tag hd
      · exact h.step hw step

/-- What a statement performs, it performs in the name of its scope and in the
current invocation. -/
theorem performed_step (adapter : Adapter) (scope : Scope) (s : Session) (step : Step) :
    ∃ new, (s.step adapter scope step).performed = s.performed ++ new ∧
      ∀ w ∈ new, w.owner = scope.owner ∧ w.block = scope.block ∧ w.invocation = s.invocation := by
  have hsame {s' : Session} (h : s'.performed = s.performed) : ∃ new, s'.performed = s.performed ++ new ∧
      ∀ w ∈ new, w.owner = scope.owner ∧ w.block = scope.block ∧ w.invocation = s.invocation :=
    ⟨[], by rw [h, List.append_nil], fun w hw => absurd hw List.not_mem_nil⟩
  cases step with
  | write tag =>
      refine ⟨[s.work scope (.statement tag)], rfl, ?_⟩
      intro w hw
      rw [List.mem_singleton.1 hw]
      exact ⟨rfl, rfl, rfl⟩
  | rollback => cases adapter <;> exact hsame rfl
  | commit chain =>
      apply hsame
      unfold Session.step
      cases adapter <;> cases s.txn <;> dsimp only <;> try rfl
      all_goals
        split <;> rfl

theorem performed_steps (adapter : Adapter) (scope : Scope) (s : Session) (steps : List Step) :
    ∃ new, (s.steps adapter scope steps).performed = s.performed ++ new ∧
      ∀ w ∈ new, w.owner = scope.owner ∧ w.block = scope.block ∧ w.invocation = s.invocation := by
  unfold Session.steps
  induction steps generalizing s with
  | nil => exact ⟨[], by simp, fun w hw => absurd hw List.not_mem_nil⟩
  | cons step steps ih =>
      obtain ⟨first, hfirst, howned⟩ := performed_step adapter scope s step
      obtain ⟨rest, hrest, howned'⟩ := ih (s.step adapter scope step)
      have hinv : (s.step adapter scope step).invocation = s.invocation := congrArg Prod.snd (ledger_step step)
      refine ⟨first ++ rest, ?_, ?_⟩
      · rw [List.foldl_cons, hrest, hfirst, List.append_assoc]
      · intro w hw
        rcases List.mem_append.1 hw with hw | hw
        · exact howned w hw
        · rw [← hinv]
          exact howned' w hw

def Foreign (owner : String) : Op → Prop
  | .insertHistory i => i.migrationId ≠ owner
  | .updateAttempt id .. | .completeActive id _ => id ≠ owner
  | .statement scope .. | .progressSet scope .. => scope.owner ≠ owner
  | .invoke id _ => id ≠ owner
  | _ => True

/-- What there is of `owner`: `X` is its work in the database, `R` are its rows, and
`P` is everything it has ever written. -/
structure Apart (owner : String) (X : List Work) (R : List HistoryRow) (P : List Work) (s : Session) : Prop where
  work : Holds (fun d => workOf owner d.data = X) s
  rows : Holds (fun d => rowsOf owner d = R) s
  performed : workOf owner s.performed = P
  past : ∀ w ∈ s.performed, w.invocation ≤ s.invocation

theorem Apart.grow (h : Apart owner X R P s) (new : List Work) (hw : Holds (fun d => workOf owner d.data = X) s')
    (hr : Holds (fun d => rowsOf owner d = R) s') (hp : s'.performed = s.performed ++ new)
    (hnew : ∀ w ∈ new, w.owner ≠ owner ∧ w.invocation = s.invocation) (hi : s'.invocation = s.invocation) :
    Apart owner X R P s' := by
  refine ⟨hw, hr, ?_, ?_⟩
  · rw [hp, workOf_other fun w hw => (hnew w hw).1]
    exact h.performed
  · intro w hw
    rw [hp] at hw
    rw [hi]
    rcases List.mem_append.1 hw with hw | hw
    · exact h.past w hw
    · exact le_of_eq (hnew w hw).2

theorem Apart.touched (h : Apart owner X R P s) (hw : Holds (fun d => workOf owner d.data = X) s')
    (hr : Holds (fun d => rowsOf owner d = R) s') (ht : Touches s s') : Apart owner X R P s' := by
  apply h.grow [] hw hr
  · rw [ht.performed, List.append_nil]
  · exact fun w hw => absurd hw List.not_mem_nil
  · exact ht.invocation

theorem Apart.steps (h : Apart owner X R P s) (ho : scope.owner ≠ owner) (steps : List Step) :
    Apart owner X R P (s.steps adapter scope steps) := by
  obtain ⟨new, hnew, howned⟩ := performed_steps adapter scope s steps
  apply h.grow new
  · apply holds_steps ?_ steps h.work
    intro d tag hd
    rw [← hd]
    apply workOf_other
    intro w hw
    rw [List.mem_singleton.1 hw]
    exact ho
  · exact holds_steps (fun d tag hd => hd) steps h.rows
  · exact hnew
  · exact fun w hw => ⟨by rw [(howned w hw).1]; exact ho, (howned w hw).2.2⟩
  · exact congrArg Prod.snd (ledger_steps steps)

theorem rowsOf_updateActive {d : Db} {row : String} {f : HistoryRow → HistoryRow} (hrow : row ≠ owner)
    (hf : ∀ r, (f r).migrationId = r.migrationId) : rowsOf owner (d.updateActive row f).2 = rowsOf owner d := by
  unfold rowsOf Db.updateActive
  dsimp only
  induction d.history with
  | nil => rfl
  | cons r rows ih =>
      rw [List.map_cons, List.filter_cons, List.filter_cons, ih]
      by_cases ha : isActiveRow row r = true
      · have hid : r.migrationId = row := beq_iff_eq.1 (Bool.and_eq_true_iff.1 ha).1
        rw [if_pos ha, hf, hid]
        simp [hrow]
      · rw [if_neg ha]

theorem Foreign.rows {op : Op} (h : Foreign owner op) : Keeps (fun d => rowsOf owner d = R) op := by
  cases op <;> try trivial
  case createObject name => exact fun d h => h
  case insertMarker row => exact fun d now h => h
  case insertHistory i =>
    intro d now hd _
    have hne : (i.row now).migrationId ≠ owner := h
    rw [← hd]
    simp [rowsOf, List.filter_append, hne]
  case updateAttempt row fingerprint language runner =>
    intro d now hd
    rw [← hd]
    exact rowsOf_updateActive h fun _ => rfl
  case completeActive row toolVersion =>
    intro d now hd
    rw [← hd]
    exact rowsOf_updateActive h fun _ => rfl
  case deleteProgress row => exact fun d h => h
  case progressSet scope key value => exact fun d now w h _ => h
  case statement => exact fun d w h => h

def workless : Op → Bool
  | .statement .. | .progressSet .. => false
  | _ => true

theorem keeps_data (D : List Work → Prop) {op : Op} (h : workless op = true) : Keeps (fun d => D d.data) op := by
  cases op <;> try trivial
  case createObject name => exact fun d h => h
  case insertMarker row => exact fun d now h => h
  case insertHistory i => exact fun d now h _ => h
  case updateAttempt => exact fun d now h => h
  case completeActive => exact fun d now h => h
  case deleteProgress row => exact fun d h => h

theorem log_cases {event : String} {row : Option String} :
    (serveLog event row o s).2 = s ∨ (serveLog event row o s).2 = s.note event row := by
  unfold serveLog
  split
  · exact .inl rfl
  · exact .inr rfl

/-- What other migrations and the engine do is nothing to `owner`. -/
theorem Apart.serve {q : Request} (hq : Foreign owner q.op) (h : Apart owner X R P s) :
    Apart owner X R P (serve adapter q o s).2 := by
  have hfail (t : Session) (ht : Apart owner X R P t) : Apart owner X R P (t.fail adapter o) :=
    ht.touched ht.work.fail ht.rows.fail touches_fail
  obtain ⟨op, l⟩ := q
  cases op
  case log event row =>
    have hlog : (World.serve adapter ⟨.log event row, l⟩ o s).2 = s ∨
        (World.serve adapter ⟨.log event row, l⟩ o s).2 = s.note event row := log_cases
    rcases hlog with hlog | hlog
    · rw [hlog]
      exact h
    · rw [hlog]
      exact ⟨⟨h.work.db, h.work.working⟩, ⟨h.rows.db, h.rows.working⟩, h.performed, h.past⟩
  case invoke =>
    exact ⟨⟨h.work.db, h.work.working⟩, ⟨h.rows.db, h.rows.working⟩, h.performed,
      fun w hw => Nat.le_succ_of_le (h.past w hw)⟩
  case statement scope verb sql commitCapable =>
    have hsteps (steps : List Step) (h : Apart owner X R P s) : Apart owner X R P (s.steps adapter scope steps) :=
      h.steps hq steps
    exact submit_keeps (J := Apart owner X R P) h (hsteps _) (hsteps _) hfail
  case progressSet scope key value =>
    refine submit_keeps (J := Apart owner X R P) h (fun h => ?_) (fun h => h) hfail
    unfold World.setProgress
    split
    · apply h.grow [s.work scope (.checkpoint key value)]
      · apply h.work.record
        have hvisible := h.work.visible
        rw [← hvisible]
        apply workOf_other
        intro w hw
        rw [List.mem_singleton.1 hw]
        exact hq
      · exact h.rows.record h.rows.visible
      · rfl
      · intro w hw
        rw [List.mem_singleton.1 hw]
        exact ⟨hq, rfl⟩
      · exact congrArg Prod.snd ledger_record
    · exact h
  all_goals
    exact h.touched (h.work.serve (keeps_data (fun works => workOf owner works = X) rfl))
      (h.rows.serve (Foreign.rows hq)) (touches_serve rfl)

end Owners

end Migr8.Effects
