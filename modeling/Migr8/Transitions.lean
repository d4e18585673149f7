import Migr8.Frames
import Migr8.Transactions

namespace Migr8.Transitions

open Errors Model Latch Driver Database World Adapters Metadata Context Engine StateValidate Rules Discipline
open Obedience EngineObedience Teardown Sessions Shape Forward Frames Transactions Lib.Process

variable {A : Request → Session → Outcome → Prop} {input : Input} {p : Prop} {rows rows' : List HistoryRow}
  {s : Session} {l : Local}

theorem label_of_db {q : Request} (hd : Sound p rows s.db) (hw : p → WellFormed rows)
    (hq : ∀ o, (serve input.adapter q o s).2.db = s.db) (hi : ∀ id attempt, q.op ≠ .invoke id attempt) :
    Label input p q s := by
  refine ⟨fun hp => ⟨hd.decent hp, hd.history ▸ hw hp⟩, fun o => ?_, fun id attempt he => absurd he (hi id attempt)⟩
  rw [hq o]
  exact Move.stay

theorem wp_exec_write (op : Op) (f : Outcome → Db → Except DriverError (Answer op × Db))
    {operation phase : String} {id : Option String}
    (hop : ∀ l o s, serve input.adapter ⟨op, l⟩ o s =
      submit input.adapter false o (write input.adapter l.engineTransaction (f o)) (fun s => s) s)
    (hi : ∀ id attempt, op ≠ .invoke id attempt) (hwr : Writable input.adapter s) (hd : Sound p rows s.db)
    (hw : p → WellFormed rows) :
    wp (serve input.adapter) A (Label input p) (exec input.config op operation phase id) (fun r l' s' =>
      s'.db = s.db ∧ ∀ a, r = .ok a → (l' = l ∧ l.latch.state = .open) ∧
        ∃ o t, s'.txn = some t ∧ t.aborted = false ∧ f o s.visible = .ok (a, t.working)) l s := by
  have hdb (o : Outcome) : (serve input.adapter ⟨op, l⟩ o s).2.db = s.db := by
    rw [hop]
    exact (submit_write hwr).1
  refine wp_exec (fun _ => label_of_db hd hw hdb hi) (fun e _ => ⟨rfl, nofun⟩) (fun hl o a _ hr => ?_) ?_
  · refine ⟨hdb o, ?_⟩
    rintro _ ⟨⟩
    rw [hop] at hr ⊢
    exact ⟨⟨rfl, hl⟩, o, (submit_write hwr).2 a hr⟩
  · exact fun o e _ _ => ⟨hdb o, nofun⟩

/-- How a step that moves the history may end. If it fails, the history is as it
was, or a commit without an answer has made the move. -/
def After {α : Type} (p : Prop) (rows : List HistoryRow) (next : List HistoryRow → Prop) (r : Except Exc α) (l : Local)
    (s : Session) : Prop :=
  match r with
  | .ok _ => ∃ rows', next rows' ∧ Frame p rows' s
  | .error _ => Sound p rows s.db ∨ l.latch.state = .unknownOutcome ∧ ∃ rows', next rows' ∧ Sound p rows' s.db

/-- The one place where the history moves. -/
theorem wp_settle {next : List HistoryRow → Prop} {b : Boundary} {id : Option String} {t : Txn}
    (ht : s.txn = some t) (ha : t.aborted = false) (hd : Sound p rows s.db) (hd' : Sound p rows' t.working)
    (hw : WellFormed rows) (hm : Move input.recoverId (.commit b) rows rows') (hn : next rows') :
    wp (serve input.adapter) A (Label input p) (durableCommit input.adapter b id) (After p rows next) l s := by
  refine wp_mono (wp_durableCommit ht ha ?_ ?_) ?_
  · exact label_of_db hd (fun _ => hw) (fun _ => rfl) nofun
  · refine ⟨fun hp => ⟨hd.decent hp, hd.history ▸ hw⟩, fun o => ?_, nofun⟩
    have hdb : (serve input.adapter ⟨.commit b, l⟩ o s).2.db = s.db ∨
        (serve input.adapter ⟨.commit b, l⟩ o s).2.db = t.working := by
      rcases serveCommit_cases ht ha input.adapter o with ⟨-, hc⟩ | ⟨e, -, -, h⟩
      · exact .inr (congrArg (fun x => x.2.db) hc)
      · exact h.imp (fun h => h) And.right
    rcases hdb with h | h <;> rw [h]
    · exact Move.stay
    · rw [hd.history, hd'.history]
      exact hm
  · rintro (e | u) l' s' h
    · rcases h with h | ⟨hu, h⟩
      · exact .inl (h ▸ hd)
      · exact .inr ⟨hu, rows', hn, h ▸ hd'⟩
    · subst h
      exact ⟨rows', hn, Holds.of_none hd' rfl⟩

theorem closing_db {adapter : Adapter} {q : Request} {o : Outcome} (h : closingOp q.op = true) :
    (serve adapter q o s).2.db = s.db := by
  obtain ⟨op, l⟩ := q
  cases op <;> try cases h
  case status | releaseLock => rfl
  case log =>
    change (serveLog _ _ o s).2.db = s.db
    unfold serveLog
    split <;> rfl
  case readIdentity => exact submit_keeps (J := fun s' => s'.db = s.db) rfl id id fun _ h => fail_db.trans h
  case rollback | closeRollback | closeConnection | discardConnection =>
    change (serveRollback o s).2.db = s.db
    unfold serveRollback
    split
    · rfl
    · dsimp only
      split <;> rfl

/-- Whatever only ends things leaves what is durable as it is. -/
theorem wp_closing {α : Type} {K : Op → Prop} {m : Run α} {P : Except Exc α → Local → RunLatch → Prop} {c : RunLatch}
    (h : Safe input.adapter K m P l c) (hK : ∀ op, K op → closingOp op = true) (hd : Sound p rows s.db)
    (hw : p → WellFormed rows) :
    wp (serve input.adapter) A (Label input p) m (fun r l s' => (∃ c, P r l c) ∧ s'.db = s.db) l s := by
  have hl := wp_lift (A := A) (J := fun s' => s'.db = s.db) h rfl
    fun q o s' hq _ hs => (closing_db (hK _ hq)).trans hs
  refine wp_weaken hl (fun _ _ _ h => h) ?_
  rintro q s' ⟨⟨c, hq⟩, hs⟩
  refine label_of_db (hs ▸ hd) hw (fun o => closing_db (hK _ hq.kind)) fun id attempt he => ?_
  have := hK _ hq.kind
  rw [he] at this
  cases this

theorem Sound.insert {d : Db} {row : HistoryRow} (h : Sound p rows d) :
    Sound p (rows ++ [row]) { d with history := d.history ++ [row] } :=
  ⟨by rw [h.history], fun hp => ⟨ProgressOk.append (h.decent hp).progress, (h.decent hp).marker⟩⟩

/-- The constraints of the table let an inserted row stand beside the others. -/
theorem insertHistory_ok {adapter : Adapter} {row : HistoryRow} {d d' : Db} {a : Unit} (h : Sound p rows d)
    (hi : World.insertHistory adapter row d = .ok (a, d')) :
    Sound p (rows ++ [row]) d' ∧ ∀ r ∈ rows, r.migrationId ≠ row.migrationId ∧
      (row.isActive = true → r.isActive = false) := by
  unfold World.insertHistory at hi
  split at hi
  · next ha =>
      cases hi
      refine ⟨Sound.insert h, fun r hr => ?_⟩
      have hall := List.all_eq_true.1 (Bool.and_eq_true_iff.1 ha).2 r (h.history ▸ hr)
      simp only [Bool.and_eq_true, bne_iff_ne, ne_eq, Bool.not_eq_true', Bool.and_eq_false_imp] at hall
      refine ⟨hall.1.1, fun hact => ?_⟩
      cases hra : r.isActive
      · rfl
      · rw [hall.2 hra] at hact
        cases hact
  · cases hi

theorem begin_frame (hs : Frame p rows s) (hw : p → WellFormed rows) :
    wp (serve input.adapter) A (Label input p) (begin input.adapter) (fun r l' s' =>
      Frame p rows s' ∧ (r = .ok () → l'.latch.state = .open ∧ Fresh input.adapter s s')) l s := by
  have hop : ∀ op, txnOp op = true → FrameOp (ownsActive rows) op := by
    intro op h
    cases op <;> trivial
  have hobeys : Obeys input.adapter (fun op => txnOp op = true) any (begin input.adapter) := Obeys.begin fun _ h => h
  have hsafe := hobeys l l.latch (Later.refl _) trivial
  have hb : wp (serve input.adapter) A (Label input p) (begin input.adapter) (fun r l s => _ ∧ Frame p rows s) l s :=
    wp_frame hsafe hop hs hw
  refine wp_weaken (wp_mono (wp_and hb (wp_begin l s)) ?_) (fun _ _ _ h => h) fun _ _ h => h.1
  rintro r l' s' ⟨⟨⟨c, -, -, ht⟩, hf⟩, h⟩
  refine ⟨hf, fun hr => ?_⟩
  subst hr
  exact ⟨ht.isOpen, (h rfl).2.2.2⟩

section Rows

variable {unit : CapturedUnit} (hs : Frame p rows s) (hw : WellFormed rows)

include hs hw

def activeInsert (input : Input) (unit : CapturedUnit) : HistoryInsert where
  seq := unit.position
  migrationId := unit.id
  fingerprint := unit.fingerprint
  language := unit.language
  mode := .restartable
  status := .active
  attempt := some 1
  runner := input.config.runner

omit hs hw in
theorem wp_insertHistory {operation phase : String} {id : Option String} {i : HistoryInsert}
    (hs : Frame p rows s) (hw : WellFormed rows) (hwr : Writable input.adapter s) :
    wp (serve input.adapter) A (Label input p) (exec input.config (.insertHistory i) operation phase id)
      (fun r _ s' => Sound p rows s'.db ∧ (r = .ok () → ∃ now t, s'.txn = some t ∧ t.aborted = false ∧
        Sound p (rows ++ [i.row now]) t.working ∧ ∀ r ∈ rows, r.migrationId ≠ i.migrationId ∧
          ((i.row now).isActive = true → r.isActive = false))) l s := by
  refine wp_mono
    (wp_exec_write (.insertHistory i) (fun o => World.insertHistory input.adapter (i.row o.now))
    (fun _ _ _ => rfl) nofun
    hwr hs.db fun _ => hw) ?_
  rintro r l' s' ⟨hdb, h⟩
  refine ⟨hdb ▸ hs.db, fun hr => ?_⟩
  obtain ⟨-, o, t, ht, ha, hi⟩ := h () hr
  exact ⟨o.now, t, ht, ha, insertHistory_ok hs.visible hi⟩

def Begun (input : Input) (unit : CapturedUnit) (rows rows' : List HistoryRow) : Prop :=
  WellFormed rows' ∧ ∃ now, rows' = rows ++ [(activeInsert input unit).row now]

theorem wp_insertActiveRow (hseq : (unit.position : Int) = rows.length + 1)
    (hf : isSupportedFingerprint unit.fingerprint = true) :
    wp (serve input.adapter) A (Label input p) (insertActiveRow input.config unit)
      (After p rows (Begun input unit rows)) l s := by
  refine (wp_bind _ _).2 (wp_mono (begin_frame hs fun _ => hw) ?_)
  rintro (e | u) l₁ s₁ ⟨hs₁, hb⟩
  · exact .inl hs₁.db
  · have hwr : Writable input.adapter s₁ := (hb rfl).2.writable
    refine (wp_bind _ _).2 (wp_mono (wp_insertHistory hs₁ hw hwr) ?_)
    rintro (e | u) l₂ s₂ ⟨hd, h⟩
    · exact .inl hd
    · obtain ⟨now, t, ht, ha, hd', hrows⟩ := h rfl
      have hno : ∀ r ∈ rows, r.isActive = false := fun r hr => (hrows r hr).2 rfl
      refine wp_settle ht ha hd hd' hw (Move.begun _ _ rfl rfl rfl hno) ⟨?_, now, rfl⟩
      exact WellFormed.append hw (validateRow_insert hf (.inr ⟨rfl, rfl, rfl⟩)) hseq (fun r hr => (hrows r hr).1) hno

/-- One UPDATE of the ACTIVE row in a transaction of its own, not yet committed. -/
theorem wp_updateActive {update : Run Nat} {what id : String} {g : Outcome → HistoryRow → HistoryRow}
    (hu : ∀ l s, Frame p rows s → Writable input.adapter s →
      wp (serve input.adapter) A (Label input p) update (fun r l' s' => s'.db = s.db ∧ ∀ a, r = .ok a →
        (l' = l ∧ l.latch.state = .open) ∧ ∃ o t, s'.txn = some t ∧ t.aborted = false ∧
          Except.ok (s.visible.updateActive id (g o)) = (.ok (a, t.working) : Except DriverError (Nat × Db))) l s) :
    wp (serve input.adapter) A (Label input p) (metadataExecuteInTransaction input.config update what)
      (fun r _ s' => Sound p rows s'.db ∧ (r = .ok () → ∃ o t d, s'.txn = some t ∧ t.aborted = false ∧
        Sound p rows d ∧ t.working = (d.updateActive id (g o)).2)) l s := by
  refine (wp_bind _ _).2 (wp_mono (begin_frame hs fun _ => hw) ?_)
  rintro (e | u) l₁ s₁ ⟨hs₁, hb⟩
  · refine ⟨hs₁.db, ?_⟩
    rintro ⟨⟩
  · refine (wp_bind _ _).2 (wp_mono (hu l₁ s₁ hs₁ (hb rfl).2.writable) ?_)
    rintro (e | affected) l₂ s₂ ⟨hdb, h⟩
    · refine ⟨hdb ▸ hs₁.db, ?_⟩
      rintro ⟨⟩
    · obtain ⟨⟨rfl, hl⟩, o, t, ht, ha, hx⟩ := h affected rfl
      dsimp only
      split
      · refine ⟨hdb ▸ hs₁.db, fun _ => ⟨o, t, s₁.visible, ht, ha, hs₁.visible, ?_⟩⟩
        exact (congrArg Prod.snd (Except.ok.inj hx)).symm
      · have hd : Sound p rows s₂.db := hdb ▸ hs₁.db
        have hr : Steady input.adapter (fun op => closingOp op = true) standing known (rollback input.adapter) :=
          Steady.rollback rfl rfl
        refine (wp_bind _ _).2
          (wp_mono (wp_closing (hr l₂ l₂.latch (Later.refl _) ?_) (fun _ h => h) hd fun _ => hw) ?_)
        · rw [known, hl]
          decide
        · rintro (e | u) l₃ s₃ ⟨-, hdb'⟩
          · refine ⟨hdb' ▸ hd, ?_⟩
            rintro ⟨⟩
          · refine ⟨hdb' ▸ hd, ?_⟩
            rintro ⟨⟩

def Readmitted (input : Input) (unit : CapturedUnit) (rows rows' : List HistoryRow) : Prop :=
  WellFormed rows' ∧ ∃ now, rows' =
    updateRows unit.id (admitAttempt unit.fingerprint unit.language input.config.runner now) rows

theorem wp_updateActiveAttempt (hf : isSupportedFingerprint unit.fingerprint = true)
    (hsrc : ∀ r ∈ rows, r.isActive = true → r.migrationId = unit.id ∧
      (r.fingerprint = unit.fingerprint ∧ r.language = unit.language.value ∨ input.recoverId = some unit.id)) :
    wp (serve input.adapter) A (Label input p) (updateActiveAttempt input.config unit)
      (After p rows (Readmitted input unit rows)) l s := by
  refine (wp_bind _ _).2 (wp_mono (wp_updateActive hs hw fun l s hs hwr => wp_exec_write
    (.updateAttempt unit.id unit.fingerprint unit.language input.config.runner)
    (fun o d => .ok (d.updateActive unit.id
      (admitAttempt unit.fingerprint unit.language input.config.runner o.now)))
    (fun _ _ _ => rfl) nofun hwr hs.db fun _ => hw) ?_)
  rintro (e | u) l₁ s₁ ⟨hd, h⟩
  · exact .inl hd
  · obtain ⟨o, t, d, ht, ha, hvis, hwork⟩ := h rfl
    have hd' : Sound p (updateRows unit.id
        (admitAttempt unit.fingerprint unit.language input.config.runner o.now) rows) t.working := by
      rw [hwork]
      refine ⟨by rw [← hvis.history]; rfl, fun hp => ⟨?_, (hvis.decent hp).marker⟩⟩
      exact ProgressOk.readmit (hvis.decent hp).progress (fun _ => rfl) fun _ h => h
    refine wp_settle ht ha hd hd' hw (Move.readmitted _ _ _ _ _ rfl hsrc) ⟨?_, o.now, rfl⟩
    exact WellFormed.updateRows hw (fun _ => rfl) (fun _ => rfl) fun r hv hact =>
      validateRow_admitAttempt hv hact hf

def Completed (input : Input) (id : String) (rows rows' : List HistoryRow) : Prop :=
  WellFormed rows' ∧ ∃ now, rows' = updateRows id (completeRow input.config.runner.toolVersion now) rows

theorem wp_completeActiveRow (id : String) :
    wp (serve input.adapter) A (Label input p) (completeActiveRow input.config id)
      (After p rows (Completed input id rows)) l s := by
  refine (wp_bind _ _).2 (wp_mono (wp_updateActive hs hw fun l s hs hwr => wp_exec_write
    (.completeActive id input.config.runner.toolVersion)
    (fun o d => .ok (d.updateActive id (completeRow input.config.runner.toolVersion o.now)))
    (fun _ _ _ => rfl) nofun hwr hs.db fun _ => hw) ?_)
  rintro (e | u) l₁ s₁ ⟨hd, h⟩
  · exact .inl hd
  · obtain ⟨o, t, d, ht, ha, hvis, hwork⟩ := h rfl
    have hv : s₁.visible = t.working := by simp [Session.visible, ht]
    refine (wp_bind _ _).2 (wp_mono (wp_exec_write (.deleteProgress id) (fun _ d => .ok ((), d.deleteProgress id))
      (fun _ _ _ => rfl) nofun (.inr (by rw [ht]; rfl)) hd fun _ => hw) ?_)
    rintro (e | u) l₂ s₂ ⟨hdb, h⟩
    · exact .inl (hdb ▸ hd)
    · obtain ⟨-, -, t', ht', ha', hx⟩ := h u rfl
      have hw' : t'.working = (s₁.visible.deleteProgress id) := (congrArg Prod.snd (Except.ok.inj hx)).symm
      have hd' : Sound p (updateRows id (completeRow input.config.runner.toolVersion o.now) rows) t'.working := by
        rw [hw', hv, hwork]
        refine ⟨by rw [← hvis.history]; rfl, fun hp => ⟨?_, (hvis.decent hp).marker⟩⟩
        exact ProgressOk.complete (hvis.decent hp).progress
      refine wp_settle ht' ha' (hdb ▸ hd) hd' hw (Move.completed _ _ _ rfl) ⟨?_, o.now, rfl⟩
      exact WellFormed.updateRows hw (fun _ => rfl) (fun _ => rfl) fun r hv hact =>
        validateRow_completeRow hv hact

end Rows

end Migr8.Transitions
