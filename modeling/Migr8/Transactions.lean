import Migr8.Rules

namespace Migr8.Transactions

open Errors Model Latch Driver Database World Adapters Rules Lib.Process

variable {α : Type} {A : Request → Session → Outcome → Prop} {I : Request → Session → Prop} {adapter : Adapter}
  {s : Session} {l : Local} {o : Outcome}

/-- A write of the engine stays undecided until a commit. -/
def Writable (adapter : Adapter) (s : Session) : Prop := adapter = .oracle ∨ s.txn.isSome = true

theorem put_of_writable (engine : Bool) (d : Db) (h : Writable adapter s) :
    (s.put adapter engine d).db = s.db ∧
      ∃ t, (s.put adapter engine d).txn = some t ∧ t.working = d ∧ t.aborted = s.aborted := by
  cases ht : s.txn with
  | some t =>
      simp only [Session.put, ht, Session.aborted]
      exact ⟨trivial, _, rfl, rfl, rfl⟩
  | none =>
      have ha : adapter = .oracle := h.resolve_right (by simp [ht])
      subst ha
      simp only [Session.put, ht, Session.aborted]
      exact ⟨trivial, _, rfl, rfl, rfl⟩

theorem fail_db : (s.fail adapter o).db = s.db := by
  unfold Session.fail
  cases s.txn with
  | none => rfl
  | some t => cases adapter <;> dsimp only <;> first | rfl | (split <;> rfl)

/-- An engine write decides nothing, and once answered it stands in the open
transaction. -/
theorem submit_write {engine commitCapable : Bool} {f : Db → Except DriverError (α × Db)} (h : Writable adapter s) :
    (submit adapter commitCapable o (write adapter engine f) id s).2.db = s.db ∧
      ∀ a, (submit adapter commitCapable o (write adapter engine f) id s).1 = .ok a →
        ∃ t, (submit adapter commitCapable o (write adapter engine f) id s).2.txn = some t ∧ t.aborted = false ∧
          f s.visible = .ok (a, t.working) := by
  have hcarry : (carryOut (write adapter engine f) s).2.db = s.db ∧
      ∀ a, (carryOut (write adapter engine f) s).1 = .ok a →
        ∃ t, (carryOut (write adapter engine f) s).2.txn = some t ∧ t.aborted = false ∧
          f s.visible = .ok (a, t.working) := by
    unfold carryOut
    split
    · exact ⟨rfl, nofun⟩
    · next hab =>
        unfold write
        split
        · exact ⟨rfl, nofun⟩
        · next a d hf =>
            obtain ⟨hdb, t, ht, hw, ha⟩ := put_of_writable engine d h
            refine ⟨hdb, ?_⟩
            rintro _ ⟨⟩
            exact ⟨t, ht, ha.trans (by simpa using hab), by rw [hw, hf]⟩
  unfold submit
  split
  · split
    · next he =>
        rw [he] at hcarry
        refine ⟨hcarry.1, ?_⟩
        rintro _ ⟨⟩
        exact hcarry.2 _ rfl
    · next he =>
        rw [he] at hcarry
        exact ⟨fail_db.trans hcarry.1, nofun⟩
  · refine ⟨?_, nofun⟩
    dsimp only
    split
    · exact fail_db
    · split
      · exact hcarry.1
      · exact fail_db

/-- For a call that may commit, definite means rejected. -/
theorem isDefinite_of_exc {fault : Fault} {e : Exc} (h : fault.exc = some e) :
    isDefinite adapter true e = fault.rejects adapter true := by
  cases fault <;> cases h <;> simp [isDefinite, Exc.isException, Fault.rejects, classifyCallFailure]

theorem guardOutcome_unknown {g : Guard} {e : Exc} (hk : e.kind? = none)
    (hd : isDefinite adapter g.commitCapable e = false) (hl : l.latch.state = .open) :
    (guardOutcome adapter g e l).2.latch.state = .unknownOutcome := by
  have hg : guardOutcome adapter g e l = (.migr8 (g.unknownOutcome adapter e),
      { l with latch := l.latch.latchUnknown (g.unknownOutcome adapter e) rfl }) := by
    cases e <;> simp_all [guardOutcome, Exc.kind?]
  rw [hg]
  simp [RunLatch.latchUnknown, RunLatch.set, hl]

theorem kind_of_fault {fault : Fault} {e : Exc} (h : fault.exc = some e) : e.kind? = none := by
  cases fault <;> cases h <;> rfl

section Commit

variable {t : Txn} (ht : s.txn = some t) (ha : t.aborted = false)

include ht ha

/-- A commit lands, or leaves things as they are; only one whose failure settles
nothing may have landed all the same. -/
theorem serveCommit_cases (adapter : Adapter) (o : Outcome) :
    (o.fault.exc = none ∧ serveCommit adapter o s = (.ok false, { s with db := t.working, txn := none })) ∨
      ∃ e, o.fault.exc = some e ∧ (serveCommit adapter o s).1 = .error e ∧
        ((serveCommit adapter o s).2.db = s.db ∨
          commitSettled adapter o.fault = false ∧ (serveCommit adapter o s).2.db = t.working) := by
  have hc : s.commitTxn = { s with db := t.working, txn := none } := by
    simp [Session.commitTxn, ht, ha]
  cases he : o.fault.exc with
  | none =>
      refine .inl ⟨rfl, ?_⟩
      simp [serveCommit, he, ht, hc, Session.aborted, ha]
  | some e =>
      refine .inr ⟨e, rfl, by simp [serveCommit, he], ?_⟩
      simp only [serveCommit, he]
      split
      · left
        split <;> rfl
      · next hs =>
          split
          · exact .inr ⟨by simpa using hs, by rw [hc]⟩
          · left
            split <;> rfl

omit ht ha in
theorem wp_commitFailed {e : Exc} {s' : Session} (he : o.fault.exc = some e)
    (hdb : s'.db = s.db ∨ commitSettled .sqlite o.fault = false ∧ s'.db = t.working) :
    wp (serve .sqlite) A I (commitFailed true e : Run Bool) (fun r l' s' => match r with
        | .ok _ => False
        | .error e => l' = l ∧ e.kind? = none ∧
            (s'.db = s.db ∨ isDefinite .sqlite true e = false ∧ s'.db = t.working)) l s' := by
  cases hf : o.fault with
  | answered => rw [hf] at he; cases he
  | plain name =>
      rw [hf] at he
      cases he
      exact ⟨rfl, rfl, hdb.imp (fun h => h) fun h => ⟨rfl, h.2⟩⟩
  | interrupted =>
      rw [hf] at he
      cases he
      exact ⟨rfl, rfl, hdb.imp (fun h => h) fun h => ⟨rfl, h.2⟩⟩
  | driver d =>
      rw [hf] at he hdb
      cases he
      obtain ⟨name, detail⟩ := d
      cases detail with
      | sqlite code =>
          simp only [commitFailed, Bool.not_true, Bool.false_or]
          split
          · next hs => exact ⟨rfl, rfl, .inl (hdb.resolve_right fun h => by simp [commitSettled, hs] at h)⟩
          · exact ⟨rfl, rfl, hdb.imp (fun h => h) fun h => ⟨rfl, h.2⟩⟩
      | postgres => exact ⟨rfl, rfl, hdb.imp (fun h => h) fun h => ⟨rfl, h.2⟩⟩
      | oracle => exact ⟨rfl, rfl, hdb.imp (fun h => h) fun h => ⟨rfl, h.2⟩⟩

theorem wp_doCommit {b : Boundary} (hstatus : I ⟨.status, l⟩ s) (hcommit : I ⟨.commit b, l⟩ s) :
    wp (serve adapter) A I (doCommit adapter b) (fun r l' s' => l'.latch = l.latch ∧ match r with
      | .ok _ => s' = { s with db := t.working, txn := none }
      | .error e => e.kind? = none ∧
          (s'.db = s.db ∨ isDefinite adapter true e = false ∧ s'.db = t.working)) l s := by
  have hstat : txnStatus s = .open := by simp [txnStatus, ht, ha]
  have hout {a : Adapter} {o : Outcome} {e : Exc} (hs : commitSettled a o.fault = o.fault.rejects a true)
      (he : o.fault.exc = some e)
      (hdb : (serveCommit a o s).2.db = s.db ∨
        commitSettled a o.fault = false ∧ (serveCommit a o s).2.db = t.working) :
      e.kind? = none ∧ ((serveCommit a o s).2.db = s.db ∨
        isDefinite a true e = false ∧ (serveCommit a o s).2.db = t.working) := by
    refine ⟨kind_of_fault he, hdb.imp id fun h => ⟨?_, h.2⟩⟩
    rw [isDefinite_of_exc he, ← hs]
    exact h.1
  cases adapter with
  | oracle =>
      refine wp_perform_bind hcommit (fun o a _ hr => ?_) fun o e _ hr => ?_
      all_goals rcases serveCommit_cases ht ha .oracle o with ⟨-, hc⟩ | ⟨e', he, hr', hdb⟩
      · exact ⟨rfl, congrArg Prod.snd hc⟩
      · cases hr.symm.trans hr'
      · cases hr.symm.trans (congrArg Prod.fst hc)
      · cases hr.symm.trans hr'
        exact ⟨rfl, hout rfl he hdb⟩
  | postgres =>
      refine wp_perform_bind hstatus (fun o a _ hr => ?_) fun o e _ hr => by cases hr
      cases hr
      rw [if_neg (by rw [hstat]; decide)]
      refine wp_perform_bind hcommit (fun o a _ hr => ?_) fun o e _ hr => ?_
      all_goals rcases serveCommit_cases ht ha .postgres o with ⟨-, hc⟩ | ⟨e', he, hr', hdb⟩
      · cases hr.symm.trans (congrArg Prod.fst hc)
        exact ⟨rfl, congrArg Prod.snd hc⟩
      · cases hr.symm.trans hr'
      · cases hr.symm.trans (congrArg Prod.fst hc)
      · cases hr.symm.trans hr'
        exact ⟨rfl, hout rfl he hdb⟩
  | sqlite =>
      refine wp_perform_bind hstatus (fun o a _ hr => ?_) fun o e _ hr => by cases hr
      cases hr
      have hopen : (txnStatus s != .idle) = true := by rw [hstat]; decide
      refine (wp_bind _ _).2 (wp_perform_tryCatch hcommit (fun o a _ hr => ?_) fun o e _ hr => ?_)
      all_goals rcases serveCommit_cases ht ha .sqlite o with ⟨-, hc⟩ | ⟨e', he, hr', hdb⟩
      · exact ⟨rfl, congrArg Prod.snd hc⟩
      · cases hr.symm.trans hr'
      · cases hr.symm.trans (congrArg Prod.fst hc)
      · cases hr.symm.trans hr'
        rw [hopen]
        refine wp_mono (wp_commitFailed he hdb) ?_
        rintro (e | u) l' s' h
        · exact ⟨congrArg _ h.1, h.2⟩
        · exact h.elim

/-- What a durable commit leaves behind, however its reply gets lost. -/
theorem wp_durableCommit {b : Boundary} {id : Option String} (hstatus : I ⟨.status, l⟩ s)
    (hcommit : I ⟨.commit b, l⟩ s) :
    wp (serve adapter) A I (durableCommit adapter b id) (fun r l' s' => match r with
      | .ok _ => s' = { s with db := t.working, txn := none }
      | .error _ => s'.db = s.db ∨ l'.latch.state = .unknownOutcome ∧ s'.db = t.working) l s := by
  refine (wp_guarded _ _ _).2 ?_
  cases hl : l.latch.error with
  | some e => exact .inl rfl
  | none =>
      have hopen : l.latch.state = .open := (RunLatch.error_eq_none_iff _).1 hl
      refine (wp_bind _ _).2 (wp_mono (wp_doCommit ht ha hstatus hcommit) ?_)
      rintro (e | u) l' s' ⟨hlatch, hs'⟩
      · refine hs'.2.imp (fun h => h) fun h => ⟨?_, h.2⟩
        exact guardOutcome_unknown hs'.1 h.1 (by rw [hlatch]; exact hopen)
      · exact hs'

end Commit

section Begin

/-- What the probe calls no open transaction: on Oracle, no transaction that the
server has given an identity. -/
def Idle (adapter : Adapter) (s : Session) : Prop :=
  match adapter with
  | .oracle => s.txn.bind (·.xid) = none
  | _ => s.txn = none

theorem txnStatus_idle_iff : txnStatus s = .idle ↔ s.txn = none := by
  unfold txnStatus
  cases s.txn with
  | none => simp
  | some t => cases ha : t.aborted <;> simp [ha]

theorem submit_pure_ok {commitCapable : Bool} {f : Session → α} {a : α}
    (h : (submit adapter commitCapable o (fun s => (.ok (f s), s)) id s).1 = .ok a) :
    a = f s ∧ (submit adapter commitCapable o (fun s => (.ok (f s), s)) id s).2 = s := by
  unfold submit carryOut at h ⊢
  cases he : o.fault.exc with
  | some e => simp [he] at h
  | none =>
      simp only [he] at h ⊢
      cases hab : s.aborted with
      | true => simp [hab] at h
      | false =>
          simp only [hab, Bool.false_eq_true, if_false, Except.ok.injEq] at h ⊢
          exact ⟨h.symm, trivial⟩

theorem wp_probeTransaction (hI : ∀ op, I ⟨op, l⟩ s) :
    wp (serve adapter) A I (probeTransaction adapter) (fun r l' s' => l' = l ∧
      ∀ b, r = .ok b → s' = s ∧ (b = false ↔ Idle adapter s)) l s := by
  cases adapter with
  | oracle =>
      refine wp_perform_bind (hI _) (fun o a _ hr => ?_) fun o e _ hr => ⟨rfl, nofun⟩
      obtain ⟨ha, hs⟩ := submit_pure_ok hr
      refine ⟨rfl, ?_⟩
      rintro _ ⟨⟩
      refine ⟨hs, ?_⟩
      rw [ha]
      simp [Idle]
  | sqlite =>
      refine wp_perform_bind (hI _) (fun o a _ hr => ?_) fun o e _ hr => by cases hr
      cases hr
      refine ⟨rfl, ?_⟩
      rintro _ ⟨⟩
      exact ⟨rfl, by simp [Idle, txnStatus_idle_iff]⟩
  | postgres =>
      refine wp_perform_bind (hI _) (fun o a _ hr => ?_) fun o e _ hr => by cases hr
      cases hr
      refine ⟨rfl, ?_⟩
      rintro _ ⟨⟩
      exact ⟨rfl, by simp [Idle, txnStatus_idle_iff]⟩

theorem wp_hasOpenTransaction (hI : ∀ op, I ⟨op, l⟩ s) :
    wp (serve adapter) A I (hasOpenTransaction adapter) (fun r l' s' =>
      ∀ b, r = .ok b → l' = l ∧ s' = s ∧ (b = false ↔ Idle adapter s)) l s := by
  refine (wp_guarded _ _ _).2 ?_
  cases l.latch.error with
  | some e => exact nofun
  | none =>
      refine wp_mono (wp_probeTransaction hI) ?_
      rintro (e | b) l' s' ⟨hl, h⟩
      · exact nofun
      · rintro _ ⟨⟩
        exact ⟨hl, h b rfl⟩

def Fresh (adapter : Adapter) (s s' : Session) : Prop :=
  match adapter with
  | .oracle => s' = s
  | _ => s' = { s with txn := some { working := s.db } }

theorem openTxn_ok {commitCapable : Bool} {a : Unit} (hs : s.txn = none)
    (h : (submit adapter commitCapable o (openTxn adapter) id s).1 = .ok a) :
    (submit adapter commitCapable o (openTxn adapter) id s).2 = { s with txn := some { working := s.db } } := by
  have hc : carryOut (openTxn adapter) s = (.ok (), { s with txn := some { working := s.db } }) := by
    simp [carryOut, Session.aborted, openTxn, hs]
  unfold submit at h ⊢
  cases he : o.fault.exc with
  | some e => simp [he] at h
  | none => simp [hc]

theorem wp_doBegin (h : Idle adapter s) :
    wp (serve adapter) A (fun _ _ => True) (doBegin adapter) (fun r l' s' => r = .ok () →
      l'.latch = l.latch ∧ Fresh adapter s s') l s := by
  cases adapter with
  | oracle => exact fun _ => ⟨rfl, rfl⟩
  | postgres => exact wp_perform.2 ⟨trivial, fun o _ hr => ⟨rfl, openTxn_ok h hr⟩⟩
  | sqlite =>
      refine wp_perform_bind trivial (fun o a _ hr => ?_) fun o e _ hr => nofun
      exact fun _ => ⟨rfl, openTxn_ok h hr⟩

theorem wp_begin (l : Local) (s : Session) :
    wp (serve adapter) A (fun _ _ => True) (begin adapter) (fun r l' s' => r = .ok () →
      l'.engineTransaction = true ∧ l'.latch = l.latch ∧ Idle adapter s ∧ Fresh adapter s s') l s := by
  refine (wp_bind _ _).2 ((wp_get _).2 ?_)
  dsimp only
  split
  · exact nofun
  · refine (wp_bind _ _).2 (wp_mono (wp_hasOpenTransaction fun _ => trivial) ?_)
    rintro (e | b) l' s' h
    · exact nofun
    · obtain ⟨rfl, rfl, hidle⟩ := h b rfl
      cases b with
      | true => exact nofun
      | false =>
          have hidle := hidle.1 rfl
          refine (wp_bind _ _).2 ((wp_guarded _ _ _).2 ?_)
          cases l'.latch.error with
          | some e => exact nofun
          | none =>
              refine wp_mono (wp_doBegin hidle) ?_
              rintro (e | u) l'' s'' h''
              · exact nofun
              · obtain ⟨hl, hf⟩ := h'' rfl
                exact fun _ => ⟨rfl, hl, hidle, hf⟩

theorem Fresh.writable {s' : Session} (h : Fresh adapter s s') : Writable adapter s' := by
  cases adapter with
  | oracle => exact .inl rfl
  | sqlite => exact .inr (by rw [show s' = _ from h]; rfl)
  | postgres => exact .inr (by rw [show s' = _ from h]; rfl)

end Begin

section Identity

open Context

theorem isSome_of_status (h : (txnStatus s != .idle) = true) : s.txn.isSome = true := by
  cases ht : s.txn with
  | none => simp [txnStatus, ht] at h
  | some t => rfl

/-- Only an open transaction shows an identity, except to Oracle, which needs
none to write. -/
theorem wp_readTransactionIdentity (l : Local) (s : Session) :
    wp (serve adapter) A (fun _ _ => True) (readTransactionIdentity adapter) (fun r _ s' =>
      ∀ i, r = .ok (some i) → s' = s ∧ Writable adapter s) l s := by
  refine (wp_guarded _ _ _).2 ?_
  cases l.latch.error with
  | some e => rintro _ ⟨⟩
  | none =>
      cases adapter with
      | sqlite =>
          refine wp_perform_bind trivial (fun o status _ hr => ?_) fun o e _ hr => by cases hr
          cases hr
          refine (wp_ite _ _ _).2 ?_
          split
          · next h => exact fun _ _ => ⟨rfl, .inr (isSome_of_status h)⟩
          · rintro _ ⟨⟩
      | postgres =>
          refine wp_perform_bind trivial (fun o status _ hr => ?_) fun o e _ hr => by cases hr
          cases hr
          refine (wp_ite _ _ _).2 ?_
          split
          · next h =>
              refine wp_perform_bind trivial (fun o a _ hr => ?_) fun o e _ _ => by rintro _ ⟨⟩
              exact fun _ _ => ⟨(submit_pure_ok hr).2, .inr (isSome_of_status h)⟩
          · rintro _ ⟨⟩
      | oracle =>
          refine wp_perform_bind trivial (fun o a _ hr => ?_) fun o e _ _ => by rintro _ ⟨⟩
          exact fun _ _ => ⟨(submit_pure_ok hr).2, .inl rfl⟩

theorem wp_checkTransactionIdentity (i : Identity) (id scope outcome : String) (l : Local) (s : Session) :
    wp (serve adapter) A (fun _ _ => True) (checkTransactionIdentity adapter (some i) id scope outcome)
      (fun r _ s' => r = .ok () → s' = s ∧ Writable adapter s) l s := by
  refine (wp_bind _ _).2 (wp_mono (wp_readTransactionIdentity l s) ?_)
  rintro (e | current) l' s' h
  · rintro ⟨⟩
  · dsimp only
    split
    · next hc => exact fun _ => h i (by rw [hc])
    · rintro ⟨⟩

end Identity

end Migr8.Transactions
