import Migr8.Planning

namespace Migr8.Execution

open Errors Model Latch Driver Database World Adapters Context Engine StateValidate Rules Discipline Obedience
open EngineObedience Teardown Sessions Shape Forward Frames Transactions Transitions Plans Lib.Process

variable {A : Request → Session → Outcome → Prop} {input : Input} {p : Prop} {rows : List HistoryRow} {α β : Type}
  {s : Session} {l : Local} {unit : CapturedUnit}

theorem wp_frame_bind {K : Op → Prop} {m : Run α} {f : α → Run β} {P : Except Exc β → Local → Session → Prop}
    (hm : Obeys input.adapter K isOpen m) (hK : ∀ op, K op → FrameOp (ownsActive rows) op) (hs : Frame p rows s)
    (hw : p → WellFormed rows) (hl : l.latch.state = .open) (herr : ∀ e l' s', Frame p rows s' → P (.error e) l' s')
    (hok : ∀ a l' s', l'.latch.state = .open → Frame p rows s' →
      wp (serve input.adapter) A (Label input p) (f a) P l' s') :
    wp (serve input.adapter) A (Label input p) (m >>= f) P l s := by
  refine (wp_bind _ _).2 (wp_mono (wp_frame (hm l l.latch (Later.refl _) hl) hK hs hw) ?_)
  rintro (e | a) l' s' ⟨⟨c, -, -, ht⟩, hs'⟩
  · exact herr e l' s' hs'
  · exact hok a l' s' ht.isOpen hs'

theorem frameOp_of_txnOp {owner : String → Prop} {op : Op} (h : txnOp op = true) : FrameOp owner op := by
  cases op <;> trivial

section Invocation

variable (hs : Frame p rows s) (hw : WellFormed rows)

include hs hw

theorem wp_invoke {attempt : Option Int} (hu : unit ∈ input.capture.units) (hi : Invoked unit attempt rows)
    (hl : l.latch.state = .open) :
    wp (serve input.adapter) A (Label input p) (Engine.invoke input unit attempt) (fun _ _ s' =>
      Frame p rows s') l s := by
  have howns : unit.mode = .restartable → ownsActive rows unit.id := by
    intro hm
    obtain ⟨a, -, r, hr, hact, -⟩ := hi.restartable hm
    obtain ⟨hid, hact⟩ := Bool.and_eq_true_iff.1 hact
    exact ⟨r, hr, by simpa using hid, hact⟩
  have hlabel (l : Local) : Label input p ⟨.invoke unit.id attempt, l⟩ s := by
    refine ⟨hs.good fun _ => hw, fun o => Move.stay, ?_⟩
    rintro id attempt ⟨⟩
    exact ⟨unit, hu, rfl, hs.db.history ▸ hi⟩
  refine (wp_bind _ _).2 ((wp_modify _).2 (wp_perform_bind (hlabel _) (fun o u _ hr => ?_) fun o e _ hr => by cases hr))
  have hentry : Quiet input.adapter (fun op => UserOp unit op ∨ ∃ r, op = .ended unit.id r) isOpen
      (runEntry input unit attempt) := Quiet.runEntry (fun _ h => .inl h) attempt fun r => .inr ⟨r, rfl⟩
  have hs' : Frame p rows { s with invocation := s.invocation + 1 } := ⟨hs.db, hs.working⟩
  refine wp_mono (wp_frame (hentry _ _ (Later.refl _) hl) ?_ hs' fun _ => hw) fun _ _ _ h => h.2
  rintro op (h | ⟨r, rfl⟩)
  · exact frameOp_of_userOp howns h
  · trivial

end Invocation

section Atomic

def successInsert (input : Input) (unit : CapturedUnit) : HistoryInsert where
  seq := unit.position
  migrationId := unit.id
  fingerprint := unit.fingerprint
  language := unit.language
  mode := unit.mode
  status := .success
  attempt := none
  runner := input.config.runner

def Succeeded (input : Input) (unit : CapturedUnit) (rows rows' : List HistoryRow) : Prop :=
  WellFormed rows' ∧ ∃ now, rows' = rows ++ [(successInsert input unit).row now]

def Pending (input : Input) (p : Prop) (unit : CapturedUnit) (rows : List HistoryRow) (r : Except Exc Unit)
    (s : Session) : Prop :=
  Sound p rows s.db ∧ (r = .ok () → ∃ now t, s.txn = some t ∧ t.aborted = false ∧
    Sound p (rows ++ [(successInsert input unit).row now]) t.working ∧
    ∀ r ∈ rows, r.migrationId ≠ unit.id)

theorem Pending.error {e : Exc} (h : Sound p rows s.db) : Pending input p unit rows (.error e) s := by
  refine ⟨h, ?_⟩
  rintro ⟨⟩

variable (hs : Frame p rows s) (hw : WellFormed rows) (hl : l.latch.state = .open)
  (hu : unit ∈ input.capture.units) (hm : unit.mode = .atomic) (hno : ∀ r ∈ rows, r.migrationId ≠ unit.id)

include hs hw hl hu hm hno

theorem wp_atomicBody (identity : Identity) :
    wp (serve input.adapter) A (Label input p) (atomicBody input unit identity) (fun r _ s' =>
      Pending input p unit rows r s') l s := by
  have hi : Invoked unit none rows :=
    ⟨fun r hr hid => absurd hid (hno r hr), fun _ => hno, fun h => by rw [hm] at h; cases h⟩
  refine (wp_bind _ _).2 (wp_mono (wp_invoke hs hw hu hi hl) ?_)
  rintro (e | u) l₁ s₁ hs₁
  · exact Pending.error hs₁.db
  refine (wp_bind _ _).2 (wp_checkLatch.2 ?_)
  cases hlatch : l₁.latch.error with
  | some e => exact Pending.error hs₁.db
  | none =>
      have hl₁ : l₁.latch.state = .open := (RunLatch.error_eq_none_iff _).1 hlatch
      have hvalid :
          Obeys input.adapter (fun op => op = .checkRequired unit.required) isOpen (requireValid input unit) :=
        Obeys.requireValid rfl
      refine wp_frame_bind hvalid ?_ hs₁ (fun _ => hw) hl₁ (fun e l' s' hs' => Pending.error hs'.db) ?_
      · rintro op rfl
        trivial
      intro _ l₂ s₂ hl₂ hs₂
      have hcheck : Obeys input.adapter (fun op => txnOp op = true) isOpen
          (checkTransactionIdentity input.adapter (some identity) unit.id "atomic" "No success row was written.") :=
        Obeys.checkTransactionIdentity (fun _ h => h) identity _ _ _
      have hframe := wp_frame (A := A) (hcheck l₂ l₂.latch (Later.refl _) hl₂) (fun _ h => frameOp_of_txnOp h) hs₂
        fun _ => hw
      have hboth :=
        wp_and hframe (wp_checkTransactionIdentity identity unit.id "atomic" "No success row was written." l₂ s₂)
      refine (wp_bind _ _).2 (wp_mono (wp_weaken hboth (fun _ _ _ h => h) fun _ _ h => h.1) ?_)
      rintro (e | u) l₃ s₃ ⟨⟨-, hs₃⟩, hwr⟩
      · exact Pending.error hs₃.db
      obtain ⟨rfl, hwr⟩ := hwr rfl
      refine wp_mono (wp_insertHistory hs₃ hw hwr) ?_
      rintro r l₄ s₄ ⟨hd, h⟩
      refine ⟨hd, fun hr => ?_⟩
      obtain ⟨now, t, ht, ha, hd', hrows⟩ := h hr
      exact ⟨now, t, ht, ha, hd', hno⟩

omit hs hw hl hu hm hno in
/-- The handler of an atomic attempt ends in an exception. -/
theorem wp_handleAtomic_throws {adapter : Adapter} (e : Exc) (l : Local) (s : Session) :
    wp (serve adapter) A (fun _ _ => True) (handleAtomic input unit e) (fun r _ _ => ∃ e, r = .error e) l s := by
  have hthrow (e : Exc) (l : Local) (s : Session) : wp (serve adapter) A (fun _ _ => True)
      (Proc.throw e : Run Unit) (fun r _ _ => ∃ e, r = .error e) l s := ⟨e, rfl⟩
  have hlast (e : Migr8Error) (l : Local) (s : Session) : wp (serve adapter) A (fun _ _ => True)
      (latchedOr e : Run Unit) (fun r _ _ => ∃ e, r = .error e) l s := ⟨_, rfl⟩
  unfold handleAtomic
  split
  · exact hthrow _ _ _
  · exact wp_bind_top (fun _ => hthrow _) fun e _ _ => ⟨e, rfl⟩
  · exact wp_bind_top (fun _ => hthrow _) fun e _ _ => ⟨e, rfl⟩
  · refine (wp_ite _ _ _).2 ?_
    split
    · exact wp_bind_top (fun _ => hlast _) fun e _ _ => ⟨e, rfl⟩
    · exact hthrow _ _ _

omit hl in
/-- An atomic migration and its SUCCESS row become durable together or not at all. -/
theorem wp_runAtomic (hseq : (unit.position : Int) = rows.length + 1)
    (hf : isSupportedFingerprint unit.fingerprint = true) (hact : ∀ r ∈ rows, r.isActive = false) :
    wp (serve input.adapter) A (Label input p) (runAtomic input unit)
    (After p rows (Succeeded input unit rows)) l s := by
  refine (wp_bind _ _).2 (wp_mono (begin_frame hs fun _ => hw) ?_)
  rintro (e | u) l₁ s₁ ⟨hs₁, hb⟩
  · exact .inl hs₁.db
  have hid : Obeys input.adapter (fun op => txnOp op = true) isOpen (establishTransactionIdentity input.adapter) :=
    (Speaks.establishTransactionIdentity fun _ h => h).obeys.weaken fun _ _ => trivial
  refine wp_frame_bind hid (fun _ h => frameOp_of_txnOp h) hs₁ (fun _ => hw) (hb rfl).1
    (fun e l' s' hs' => .inl hs'.db) fun identity l₂ s₂ hl₂ hs₂ => ?_
  refine (wp_bind _ _).2 ((wp_tryCatch _ _).2 (wp_mono (wp_atomicBody hs₂ hw hl₂ hu hm hno identity) ?_))
  rintro (e | u) l₃ s₃ ⟨hd, h⟩
  · have hh : Obeys input.adapter (fun op => closingOp op = true) any (handleAtomic input unit e) :=
      Obeys.handleAtomic (by rfl) (by rfl) e
    have hclose := wp_closing (A := A) (hh l₃ l₃.latch (Later.refl _) trivial) (fun _ h => h) hd fun _ => hw
    have hboth := wp_and hclose (wp_handleAtomic_throws e l₃ s₃)
    refine wp_mono (wp_weaken hboth (fun _ _ _ h => h) fun _ _ h => h.1) ?_
    rintro r l₄ s₄ ⟨⟨-, hdb⟩, e, rfl⟩
    exact .inl (hdb ▸ hd)
  · obtain ⟨now, t, ht, ha, hd', hrows⟩ := h rfl
    refine wp_settle ht ha hd hd' hw (Move.succeed _ _ rfl rfl) ⟨?_, now, rfl⟩
    exact WellFormed.append hw (validateRow_insert hf (.inl ⟨rfl, hm, rfl⟩)) hseq hrows hact

end Atomic

section Restartable

variable {rows' : List HistoryRow} {attempt : Option Int}

def Admits (p : Prop) (unit : CapturedUnit) (rows : List HistoryRow) (r : Except Exc (Option Int)) (l : Local)
    (s : Session) : Prop :=
  match r with
  | .ok attempt => l.latch.state = .open ∧ ∃ rows', Entered unit attempt rows rows' ∧ attempt.isSome = true ∧
      Frame p rows' s
  | .error _ => (∃ rows', WellFormed rows' ∧ Sound p rows' s.db) ∧
      (l.latch.state ≠ .unknownOutcome → Sound p rows s.db)

theorem Admits.of_after {next : List HistoryRow → Prop} {e : Exc} (hw : WellFormed rows)
    (hn : ∀ rows', next rows' → WellFormed rows') (h : After p rows next (.error e : Except Exc Unit) l s) :
    Admits p unit rows (.error e) l s := by
  rcases h with hd | ⟨hu, rows', hnext, hd⟩
  · exact ⟨⟨rows, hw, hd⟩, fun _ => hd⟩
  · exact ⟨⟨rows', hn rows' hnext, hd⟩, fun h => absurd hu h⟩

variable {done rest : List CapturedUnit} {active : Option HistoryRow}
  (hs : Frame p rows s) (hready : Ready input.capture.units input.recoverId active done (unit :: rest) rows)
  (hd : (input.capture.units.map (·.id)).Nodup) (hseq : (unit.position : Int) = done.length + 1)
  (hf : isSupportedFingerprint unit.fingerprint = true) (hm : unit.mode = .restartable)

include hs hready hd hseq hf

theorem wp_admitUnit :
    wp (serve input.adapter) A (Label input p)
      (admitUnit input unit (active.filter fun row => row.migrationId == unit.id)) (fun r l' s' =>
        Admits p unit rows r l' s' ∧ s'.journal = s.journal) l s := by
  have hw := hready.wellFormed
  have hT : ∀ op, StepOp unit op → (∀ event id, op ≠ .log event id) ∧ ∀ id attempt, op ≠ .invoke id attempt := by
    intro op h
    constructor <;> rintro _ _ rfl <;> exact h
  have hobeys : Obeys input.adapter (StepOp unit) any
      (admitUnit input unit (active.filter fun row => row.migrationId == unit.id)) := Obeys.admitUnit (fun _ h => h) _
  have hledger := wp_lift (A := A) (J := fun s' => ledger s' = ledger s) (hobeys l l.latch (Later.refl _) trivial) rfl
    fun q o s' hq _ hs' => (ledger_serve (hT _ hq).1 (hT _ hq).2).trans hs'
  have hrows : wp (serve input.adapter) A (Label input p)
      (admitUnit input unit (active.filter fun row => row.migrationId == unit.id)) (fun r l' s' =>
        (l'.latch.state = .open ∨ ∃ e, r = .error e) → Admits p unit rows r l' s') l s := by
    cases hfilter : active.filter fun row => row.migrationId == unit.id with
    | none =>
        have hn := hready.no_active_of_filter hfilter
        have hlen := hready.length_of_no_active hn
        refine (wp_bind _ _).2 (wp_mono (wp_insertActiveRow hs hw (by omega) hf) ?_)
        rintro (e | u) l₁ s₁ h
        · exact fun _ => Admits.of_after hw (fun _ h => h.1) h
        · obtain ⟨rows', ⟨hw', now, rfl⟩, hs₁⟩ := h
          intro hl
          refine ⟨hl.resolve_right (by rintro ⟨e, ⟨⟩⟩), _, Entered.begun hw' rfl rfl, rfl, hs₁⟩
    | some row =>
        obtain ⟨hrow, hact, hid, hsrc⟩ := hready.active_of_filter hd hfilter
        have hcounted := (activeFields (hw.valid row hrow) hact).attempt
        refine (wp_bind _ _).2 (wp_mono (wp_updateActiveAttempt hs hw hf fun r hr ha => ?_) ?_)
        · cases active_unique hw hr hrow ha hact
          exact ⟨hid, hsrc⟩
        rintro (e | u) l₁ s₁ h
        · exact fun _ => Admits.of_after hw (fun _ h => h.1) h
        · obtain ⟨rows', ⟨hw', now, rfl⟩, hs₁⟩ := h
          intro hl
          refine ⟨hl.resolve_right (by rintro ⟨e, ⟨⟩⟩), _,
            Entered.readmitted hw' hrow hid hact (fun _ => rfl) fun _ => rfl, ?_, hs₁⟩
          cases hn : row.attempt with
          | none => rw [hn] at hcounted; cases hcounted
          | some n => simp
  refine wp_mono (wp_weaken (wp_and hledger hrows) (fun _ _ _ h => h) fun _ _ h => h.2) ?_
  rintro r l' s' ⟨⟨⟨c, -, -, ht⟩, hj⟩, h⟩
  refine ⟨h ?_, congrArg Prod.fst hj⟩
  cases r with
  | error e => exact .inr ⟨e, rfl⟩
  | ok a => exact .inl ht.isOpen

omit hs hready hd hseq hf in
theorem invoked_of_entered (hm : unit.mode = .restartable) (he : Entered unit attempt rows rows')
    (ha : attempt.isSome = true) :
    Invoked unit attempt rows' := by
  obtain ⟨r, hr, hact, hat⟩ := he.active
  obtain ⟨hid, hact'⟩ := Bool.and_eq_true_iff.1 hact
  refine ⟨fun x hx hxid => ?_, fun h => absurd (hm.symm.trans h) (by decide), fun _ => ?_⟩
  · rw [eq_of_id he.wellFormed.ids hx hr (hxid.trans (beq_iff_eq.1 hid).symm)]
    exact hact'
  · obtain ⟨n, hn⟩ := Option.isSome_iff_exists.1 ha
    exact ⟨n, hn, r, hr, hact, hat.trans hn⟩

structure Stopped (p : Prop) (unit : CapturedUnit) (rows : List HistoryRow) (journal : List (String × Option String))
    (l : Local) (s : Session) : Prop where
  sound : ∃ rows', WellFormed rows' ∧ Sound p rows' s.db
  stands : l.latch.state ≠ .unknownOutcome →
    Sound p rows s.db ∧ (unit.mode = .restartable → s.journal = journal) ∨
      unit.mode = .restartable ∧ ∃ attempt rows', Entered unit attempt rows rows' ∧ Sound p rows' s.db

def UnitEnd (input : Input) (p : Prop) (active : Option HistoryRow) (done : List CapturedUnit) (unit : CapturedUnit)
    (rest : List CapturedUnit) (rows : List HistoryRow) (journal : List (String × Option String))
    (r : Except Exc Unit) (l : Local) (s : Session) : Prop :=
  match r with
  | .ok _ => ∃ rows', Ready input.capture.units input.recoverId active (done ++ [unit]) rest rows' ∧ Frame p rows' s
  | .error _ => Stopped p unit rows journal l s

include hm

theorem wp_runRestartable (hu : unit ∈ input.capture.units) :
    wp (serve input.adapter) A (Label input p)
      (runRestartable input unit (active.filter fun row => row.migrationId == unit.id))
      (UnitEnd input p active done unit rest rows s.journal) l s := by
  refine (wp_bind _ _).2 (wp_mono (wp_admitUnit hs hready hd hseq hf) ?_)
  rintro (e | attempt) l₁ s₁ ⟨h, hj⟩
  · exact ⟨h.1, fun hn => .inl ⟨h.2 hn, fun _ => hj⟩⟩
  obtain ⟨hl₁, rows', he, ha, hs₁⟩ := h
  have hw' := he.wellFormed
  have hstop (r : Exc) (l : Local) (x : Session) (hx : Sound p rows' x.db) :
      UnitEnd input p active done unit rest rows s.journal (.error r) l x :=
    ⟨⟨rows', hw', hx⟩, fun _ => .inr ⟨hm, attempt, rows', he, hx⟩⟩
  refine wp_perform_bind (hs₁.label (fun _ => hw') trivial) (fun o u _ hr => ?_) fun o e _ hr => ?_
  swap
  · have hs₂ : Frame p rows' (serve input.adapter ⟨.log "admitted" (some unit.id), l₁⟩ o s₁).2 := hs₁.serve trivial
    exact hstop _ _ _ hs₂.db
  have hs₂ : Frame p rows' (serve input.adapter ⟨.log "admitted" (some unit.id), l₁⟩ o s₁).2 := hs₁.serve trivial
  have hlast (l : Local) (s' : Session) (hs' : Frame p rows' s') :
      wp (serve input.adapter) A (Label input p) (do
        checkLatch
        if ← transactionLeftOpen input then do
          rollbackQuietly input.adapter
          raise (leftOpen unit)
        else do
          requireValid input unit
          completeActiveRow input.config unit.id)
        (UnitEnd input p active done unit rest rows s.journal) l s' := by
    refine (wp_bind _ _).2 (wp_checkLatch.2 ?_)
    cases hlatch : l.latch.error with
    | some e => exact hstop _ _ _ hs'.db
    | none =>
        have hl : l.latch.state = .open := (RunLatch.error_eq_none_iff _).1 hlatch
        have hleft : Obeys input.adapter (fun op => txnOp op = true) isOpen (transactionLeftOpen input) :=
          Obeys.transactionLeftOpen (by rfl) (by rfl)
        refine wp_frame_bind hleft (fun _ h => frameOp_of_txnOp h) hs' (fun _ => hw') hl
          (fun e l' x hx => hstop _ _ _ hx.db) fun b l₃ s₃ hl₃ hs₃ => ?_
        refine (wp_ite _ _ _).2 ?_
        split
        · have hback : Obeys input.adapter (fun op => txnOp op = true) isOpen (rollbackQuietly input.adapter) :=
            Obeys.of_steady ((Steady.rollbackQuietly (by rfl) (by rfl)).weaken fun _ _ => trivial)
          exact wp_frame_bind hback (fun _ h => frameOp_of_txnOp h) hs₃ (fun _ => hw') hl₃
            (fun e l' x hx => hstop _ _ _ hx.db) fun _ l' x _ hx => hstop (.migr8 (leftOpen unit)) _ _ hx.db
        · have hvalid : Obeys input.adapter (fun op => op = .checkRequired unit.required) isOpen
              (requireValid input unit) := Obeys.requireValid rfl
          refine wp_frame_bind hvalid (fun op h => h ▸ trivial) hs₃ (fun _ => hw') hl₃
            (fun e l' x hx => hstop _ _ _ hx.db) fun _ l₄ s₄ hl₄ hs₄ => ?_
          refine wp_mono (wp_completeActiveRow hs₄ hw' unit.id) ?_
          rintro (e | u) l₅ s₅ h
          · rcases h with hx | ⟨hun, rows'', ⟨hw'', -⟩, hx⟩
            · exact hstop _ _ _ hx
            · exact ⟨⟨rows'', hw'', hx⟩, fun hn => absurd hun hn⟩
          · obtain ⟨rows'', ⟨hw'', now, rfl⟩, hs₅⟩ := h
            exact ⟨_, hready.complete he hw'' (fun _ => rfl) fun _ => rfl, hs₅⟩
  refine (wp_bind _ _).2 ((wp_tryCatch _ _).2 (wp_mono (wp_invoke hs₂ hw' hu (invoked_of_entered hm he ha) hl₁) ?_))
  rintro (e | u) l₃ s₃ hs₃
  · have hh : Obeys input.adapter (fun op => closingOp op = true) any (handleRestartable input unit e) :=
      Obeys.handleRestartable (by rfl) (by rfl) (by rfl) e
    refine wp_mono (wp_frame (hh l₃ l₃.latch (Later.refl _) trivial) (fun _ h => frameOp_of_closingOp h) hs₃
      fun _ => hw') ?_
    rintro (e | u) l₄ s₄ ⟨-, hs₄⟩
    · exact hstop _ _ _ hs₄.db
    · exact hlast l₄ s₄ hs₄
  · exact hlast l₃ s₃ hs₃

end Restartable

section Journal

def started (s : Session) : List String :=
  s.journal.filterMap fun e => if e.1 = "migration_start" then e.2 else none

def admitted (s : Session) (id : String) : Prop := ("admitted", some id) ∈ s.journal

theorem started_note (event : String) (id : Option String) (s : Session) :
    started (s.note event id) = started s ++ if event = "migration_start" then id.toList else [] := by
  simp only [started, Session.note, List.filterMap_append, List.append_cancel_left_eq]
  by_cases h : event = "migration_start" <;> cases id <;> simp [h]

theorem admitted_note {event id : String} {migration : Option String} {s : Session} :
    admitted (s.note event migration) id ↔ admitted s id ∨ event = "admitted" ∧ migration = some id := by
  simp only [admitted, Session.note, List.mem_append, List.mem_singleton, Prod.mk.injEq, eq_comm]

def SameLog (unit : CapturedUnit) (s s' : Session) : Prop :=
  started s' = started s ∧ ∀ id, id ≠ unit.id → admitted s' id → admitted s id

theorem SameLog.of_journal {s' : Session} (h : s'.journal = s.journal) : SameLog unit s s' := by
  unfold SameLog started admitted
  rw [h]
  exact ⟨rfl, fun _ _ h => h⟩

theorem SameLog.serve {q : Request} {o : Outcome} (h : UnitOp unit q.op) :
    SameLog unit s (serve input.adapter q o s).2 := by
  by_cases hl : ∃ event id, q.op = .log event id
  · obtain ⟨op, l⟩ := q
    obtain ⟨event, id, rfl⟩ := hl
    have hevent : event = "migration_log" ∨ event = "admitted" ∧ id = some unit.id :=
      h.elim (fun h => h.elim) fun h => h
    change SameLog unit s (serveLog event id o s).2
    unfold serveLog
    split
    · exact SameLog.of_journal rfl
    · refine ⟨?_, fun x hx ha => ?_⟩
      · rcases hevent with rfl | ⟨rfl, rfl⟩ <;> rw [started_note, if_neg (by decide), List.append_nil]
      · rcases admitted_note.1 ha with ha | ⟨he, hid⟩
        · exact ha
        · rcases hevent with rfl | ⟨rfl, rfl⟩
          · exact absurd he (by decide)
          · exact absurd (Option.some.inj hid).symm hx
  · by_cases hi : ∃ id attempt, q.op = .invoke id attempt
    · obtain ⟨op, l⟩ := q
      obtain ⟨id, attempt, rfl⟩ := hi
      exact SameLog.of_journal rfl
    · refine SameLog.of_journal (congrArg Prod.fst (ledger_serve ?_ ?_))
      · exact fun event id he => hl ⟨event, id, he⟩
      · exact fun id attempt he => hi ⟨id, attempt, he⟩

theorem SameLog.trans {s' s'' : Session} (h : SameLog unit s s') (h' : SameLog unit s' s'') : SameLog unit s s'' :=
  ⟨h'.1.trans h.1, fun id hn ha => h.2 id hn (h'.2 id hn ha)⟩

end Journal

section Loop

def Calm (A : Request → Session → Outcome → Prop) : Prop :=
  ∀ event id l s o, A ⟨.log event id, l⟩ s o → o.fault ≠ .interrupted

structure Standing (capture : Capture) (unit : CapturedUnit) (s : Session) : Prop where
  before : ∀ u ∈ capture.units, u.position < unit.position →
    ∃ r ∈ s.db.history, r.migrationId = u.id ∧ r.isSuccess = true
  atomic : unit.mode = .atomic → ∀ r ∈ s.db.history, r.migrationId ≠ unit.id
  restartable : unit.mode = .restartable → admitted s unit.id → ∃ r ∈ s.db.history, isActiveRow unit.id r = true

theorem positions_split {capture : Capture} {done rest : List CapturedUnit}
    (h : capture.units = done ++ unit :: rest) : unit.position = done.length + 1 := by
  have hp := capture.positions
  rw [h, List.map_append, List.map_cons] at hp
  have hi : ((done.map (·.position)) ++ unit.position :: rest.map (·.position))[done.length]? =
      some unit.position := by simp
  rw [hp, List.getElem?_range' (by simp), Option.some.injEq] at hi
  omega

theorem before_split {capture : Capture} {done rest : List CapturedUnit} {u : CapturedUnit}
    (h : capture.units = done ++ unit :: rest) (hu : u ∈ capture.units) (hlt : u.position < unit.position) :
    u ∈ done := by
  have hpos := positions_split h
  obtain ⟨i, hi, rfl⟩ := List.getElem_of_mem hu
  have hp : (capture.units.map (·.position))[i]? = some (capture.units[i]).position := by simp [hi]
  rw [capture.positions, List.getElem?_range' hi, Option.some.injEq] at hp
  have hlt' : i < done.length := by omega
  simp only [h, List.getElem_append_left hlt']
  exact List.getElem_mem _

variable {done rest : List CapturedUnit} {active : Option HistoryRow}

theorem wp_runUnit (hs : Frame p rows s)
    (hready : Ready input.capture.units input.recoverId active done (unit :: rest) rows) :
    wp (serve input.adapter) A (Label input p) (runUnit input active unit) (fun r l' s' =>
      UnitEnd input p active done unit rest rows s.journal r l' s' ∧ SameLog unit s s') l s := by
  have hu : unit ∈ input.capture.units := by
    rw [hready.split]
    simp
  have hf := input.capture.fingerprinted unit hu
  have hd := input.capture.distinct
  have hpos := positions_split hready.split
  have hobeys : Obeys input.adapter (UnitOp unit) any (runUnit input active unit) := by
    unfold runUnit
    split
    · exact Obeys.runAtomic fun _ h => h
    · exact Obeys.runRestartable (fun _ h => h) _
  have hlog := wp_lift (A := A) (J := SameLog unit s) (hobeys l l.latch (Later.refl _) trivial) (SameLog.of_journal rfl)
    fun q o s' hq _ hs' => hs'.trans (SameLog.serve hq)
  have hend : wp (serve input.adapter) A (Label input p) (runUnit input active unit)
      (UnitEnd input p active done unit rest rows s.journal) l s := by
    unfold runUnit
    split
    · next hm =>
        have hn := hready.no_active_of_atomic hm
        have hlen := hready.length_of_no_active hn
        have hno : ∀ r ∈ rows, r.migrationId ≠ unit.id := fun r hr hid => by
          have ha := hready.isActive hd hr hid
          rw [hn r hr] at ha
          cases ha
        refine wp_mono (wp_runAtomic hs hready.wellFormed hu hm hno (by omega) hf hn) ?_
        rintro (e | u) l' s' h
        · rcases h with hx | ⟨hun, rows', ⟨hw', -⟩, hx⟩
          · exact ⟨⟨rows, hready.wellFormed, hx⟩, fun _ => .inl ⟨hx, fun h => absurd (hm.symm.trans h) (by decide)⟩⟩
          · exact ⟨⟨rows', hw', hx⟩, fun hn => absurd hun hn⟩
        · obtain ⟨rows', ⟨hw', now, rfl⟩, hs'⟩ := h
          refine ⟨_, hready.advance hw' ?_ ?_ ?_ ?_ ?_, hs'⟩
          · rw [List.length_append, hlen]
            rfl
          · intro r hr
            rcases List.mem_append.1 hr with hr | hr
            · exact hn r hr
            · rw [List.mem_singleton.1 hr]
              rfl
          · exact ⟨_, List.mem_append_right _ (List.mem_singleton_self _), rfl, rfl⟩
          · exact fun r hr _ => List.mem_append_left _ hr
          · intro r hr _
            rcases List.mem_append.1 hr with hr | hr
            · exact .inl hr
            · rw [List.mem_singleton.1 hr]
              exact .inr rfl
    · next hm => exact wp_runRestartable hs hready hd (by omega) hf hm hu
  refine wp_mono (wp_weaken (wp_and hend hlog) (fun _ _ _ h => h) fun _ _ h => h.1) ?_
  rintro r l' s' ⟨h, -, hj⟩
  exact ⟨h, hj⟩

def LoopEnd (input : Input) (A : Request → Session → Outcome → Prop) (p : Prop) (active : Option HistoryRow)
    (r : Except Exc Unit) (l : Local) (s : Session) : Prop :=
  match r with
  | .ok _ => ∃ rows, Ready input.capture.units input.recoverId active input.capture.units [] rows ∧ Frame p rows s
  | .error _ => (∃ rows, WellFormed rows ∧ Sound p rows s.db) ∧ (Calm A → l.latch.state ≠ .unknownOutcome →
      ∃ unit ∈ input.capture.units, (started s).getLast? = some unit.id ∧ Standing input.capture unit s)

theorem standing_of_stopped {s₀ : Session}
    (hready : Ready input.capture.units input.recoverId active done (unit :: rest) rows)
    (h : Stopped p unit rows s₀.journal l s) (hn : ¬ admitted s₀ unit.id) (hl : l.latch.state ≠ .unknownOutcome) :
    Standing input.capture unit s := by
  have hd := input.capture.distinct
  rcases h.stands hl with ⟨hx, hj⟩ | ⟨hm, attempt, rows', he, hx⟩
  · refine ⟨fun u hu hlt => ?_, fun hm r hr hid => ?_, fun hm ha => ?_⟩
    · rw [hx.history]
      exact hready.succeeded u (before_split hready.split hu hlt)
    · rw [hx.history] at hr
      have ha := hready.isActive hd hr hid
      rw [hready.no_active_of_atomic hm r hr] at ha
      cases ha
    · unfold admitted at ha
      rw [hj hm] at ha
      exact absurd ha hn
  · refine ⟨fun u hu hlt => ?_, fun ha => absurd (hm.symm.trans ha) (by decide), fun _ _ => ?_⟩
    · rw [hx.history]
      obtain ⟨r, hr, hid, hsucc⟩ := hready.succeeded u (before_split hready.split hu hlt)
      exact ⟨r, (he.successes r hsucc).2 hr, hid, hsucc⟩
    · rw [hx.history]
      obtain ⟨r, hr, hact, -⟩ := he.active
      exact ⟨r, hr, hact⟩

theorem wp_execute (units : List CapturedUnit) : ∀ (done : List CapturedUnit) (rows : List HistoryRow) (l : Local)
    (s : Session), Frame p rows s → Ready input.capture.units input.recoverId active done units rows →
    (∀ unit ∈ units, ¬ admitted s unit.id) →
    wp (serve input.adapter) A (Label input p) (Engine.execute input active units) (LoopEnd input A p active) l s := by
  induction units with
  | nil =>
      intro done rows l s hs hready _
      have hall : input.capture.units = done := by simpa using hready.split
      rw [← hall] at hready
      exact ⟨rows, hready, hs⟩
  | cons unit units ih =>
      intro done rows l s hs hready hno
      have hlog {l : Local} {s' : Session} {rows' : List HistoryRow} {o : Outcome} {event : String} {id : Option String}
          {e : Exc} (hs' : Frame p rows' s') (hw' : WellFormed rows') (ha : A ⟨.log event id, l⟩ s' o)
          (hr : (serve input.adapter ⟨.log event id, l⟩ o s').1 = .error e) :
          LoopEnd input A p active (.error e) l (serve input.adapter ⟨.log event id, l⟩ o s').2 := by
        have hf : Frame p rows' (serve input.adapter ⟨.log event id, l⟩ o s').2 := hs'.serve trivial
        refine ⟨⟨rows', hw', hf.db⟩, fun hcalm _ => ?_⟩
        have hn := hcalm event id l s' o ha
        change (serveLog event id o s').1 = .error e at hr
        rw [serveLog, if_neg hn] at hr
        cases hr
      have hnote {l : Local} {s' : Session} {o : Outcome} {event : String} {id : Option String}
          (hr : (serve input.adapter ⟨.log event id, l⟩ o s').1 = .ok ()) :
          (serve input.adapter ⟨.log event id, l⟩ o s').2 = s'.note event id := by
        change (serveLog event id o s').1 = .ok () at hr
        change (serveLog event id o s').2 = _
        unfold serveLog at hr ⊢
        split at hr
        · cases hr
        · next h => rw [if_neg h]
      refine wp_perform_bind (hs.label (fun _ => hready.wellFormed) trivial) (fun o _ ha hr => ?_) fun o e ha hr =>
        hlog hs hready.wellFormed ha hr
      rw [hnote hr]
      have hs₁ : Frame p rows (s.note "migration_start" (some unit.id)) := ⟨hs.db, hs.working⟩
      have hno₁ : ∀ u ∈ unit :: units, ¬ admitted (s.note "migration_start" (some unit.id)) u.id := by
        intro u hu ha
        rcases admitted_note.1 ha with ha | ⟨he, -⟩
        · exact hno u hu ha
        · exact absurd he (by decide)
      refine (wp_bind _ _).2 (wp_mono (wp_runUnit hs₁ hready) ?_)
      rintro (e | u) l₂ s₂ ⟨hend, hj⟩
      · refine ⟨hend.sound, fun _ hl => ⟨unit, ?_, ?_, ?_⟩⟩
        · rw [hready.split]
          simp
        · rw [hj.1, started_note, if_pos rfl]
          simp
        · exact standing_of_stopped hready hend (hno₁ unit List.mem_cons_self) hl
      · obtain ⟨rows', hready', hs₂⟩ := hend
        refine (wp_bind _ _).2 ((wp_modify _).2 (wp_perform_bind (hs₂.label (fun _ => hready'.wellFormed) trivial)
          (fun o _ ha hr => ?_) fun o e ha hr => hlog hs₂ hready'.wellFormed ha hr))
        rw [hnote hr]
        refine ih _ rows' _ _ ⟨hs₂.db, hs₂.working⟩ hready' fun v hv hadm => ?_
        rcases admitted_note.1 hadm with hadm | ⟨he, -⟩
        · refine hno₁ v (List.mem_cons_of_mem _ hv) (hj.2 v.id ?_ hadm)
          have hd := input.capture.distinct
          rw [hready.split, List.map_append, List.map_cons, List.nodup_append, List.nodup_cons] at hd
          intro he
          exact hd.2.1.1 (he ▸ List.mem_map_of_mem hv)
        · exact absurd he (by decide)

end Loop

end Migr8.Execution
