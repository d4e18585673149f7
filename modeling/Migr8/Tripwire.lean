import Migr8.Batches
import Migr8.Convergence

namespace Migr8.Tripwire

open Errors Model Latch Driver Database World Adapters Metadata Context Engine Rules Discipline Obedience
open EngineObedience Teardown RunObedience Sessions Frames Transactions DurableHistory Effects Batches Keeping
    Lib.Process
open ExactlyOnce (Past submit_ok past_final)
open Convergence (Writes writes_runRestartable)
open Lib.Interaction (Exchange trace final play_wp final_wp)

variable {α : Type} {adapter : Adapter} {input : Input} {unit : CapturedUnit} {s s' : Session} {l : Local} {o : Outcome}
  {k : Nat} {i : Identity} {A : Request → Session → Outcome → Prop}

def ofInvocation (k : Nat) (w : Work) : Bool := w.invocation == k

section Dates

/-- Nothing bears the number of an invocation that is still to come. -/
structure Dated (s : Session) : Prop where
  past : Past s
  data : Holds (fun d => ∀ w ∈ d.data, w.invocation ≤ s.invocation) s
  broken : ∀ x ∈ s.broken, x.1 ≤ s.invocation

theorem Dated.touched (h : Dated s) (ht : Touches s s')
    (hh : Holds (fun d => ∀ w ∈ d.data, w.invocation ≤ s.invocation) s') : Dated s' := by
  refine ⟨h.past.touched ht, ?_, ?_⟩
  · rw [ht.invocation]
    exact hh
  · rw [ht.broken, ht.invocation]
    exact h.broken

theorem dated_work {n : Nat} {works : List Work} {w : Work} (h : ∀ x ∈ works, x.invocation ≤ n)
    (hw : w.invocation = n) :
    ∀ x ∈ works ++ [w], x.invocation ≤ n := by
  intro x hx
  rcases List.mem_append.1 hx with hx | hx
  · exact h x hx
  · rw [List.mem_singleton.1 hx]
    exact le_of_eq hw

theorem Dated.steps {scope : Scope} (steps : List Step) (h : Dated s) : Dated (s.steps adapter scope steps) := by
  have hinv : (s.steps adapter scope steps).invocation = s.invocation := congrArg Prod.snd (ledger_steps steps)
  refine ⟨h.past.steps steps, ?_, ?_⟩
  · rw [hinv]
    apply holds_steps ?_ steps h.data
    intro d tag hd
    exact dated_work hd rfl
  · rw [hinv]
    intro x hx
    rcases (broken_steps scope s steps).2 x hx with hx | hx
    · exact h.broken x hx
    · exact le_of_eq hx

theorem Dated.serve {q : Request} (h : Dated s) : Dated (serve adapter q o s).2 := by
  have hfail (s : Session) (h : Dated s) : Dated (s.fail adapter o) := h.touched touches_fail h.data.fail
  have hpast : Past (World.serve adapter q o s).2 := h.past.serve
  obtain ⟨op, l⟩ := q
  cases op
  case log event id =>
    have hlog : (World.serve adapter ⟨.log event id, l⟩ o s).2 = s ∨
        (World.serve adapter ⟨.log event id, l⟩ o s).2 = s.note event id := log_cases
    rcases hlog with hlog | hlog
    · rw [hlog]
      exact h
    · rw [hlog]
      exact ⟨h.past, ⟨h.data.db, h.data.working⟩, h.broken⟩
  case invoke =>
    refine ⟨hpast, ⟨fun w hw => Nat.le_succ_of_le (h.data.db w hw), ?_⟩, fun x hx => Nat.le_succ_of_le (h.broken x hx)⟩
    exact fun t ht w hw => Nat.le_succ_of_le (h.data.working t ht w hw)
  case statement => exact submit_keeps (J := Dated) h (fun h => h.steps _) (fun h => h.steps _) hfail
  case progressSet scope key value =>
    refine submit_keeps (J := Dated) h (fun h => ?_) (fun h => h) hfail
    unfold World.setProgress
    split
    · have hput : Touches s (s.put adapter l.engineTransaction { s.visible with
          progress := upsert s.visible.progress ⟨scope.owner, key, value, some o.now⟩
          data := s.visible.data ++ [s.work scope (.checkpoint key value)] }) := touches_put
      refine ⟨?_, ?_, ?_⟩
      · intro w hw
        rcases List.mem_append.1 hw with hw | hw
        · exact le_of_le_of_eq (h.past w hw) hput.invocation.symm
        · rw [List.mem_singleton.1 hw]
          exact le_of_eq hput.invocation.symm
      · have hrecorded : Holds (fun d => ∀ w ∈ d.data, w.invocation ≤ s.invocation)
            (s.record adapter l.engineTransaction (s.work scope (.checkpoint key value))
              { s.visible with progress := upsert s.visible.progress ⟨scope.owner, key, value, some o.now⟩ }) :=
          h.data.record (dated_work h.data.visible rfl)
        have hinv := hput.invocation
        exact ⟨fun w hw => le_of_le_of_eq (hrecorded.db w hw) hinv.symm,
          fun t ht w hw => le_of_le_of_eq (hrecorded.working t ht w hw) hinv.symm⟩
      · intro x hx
        have hx : x ∈ s.broken := hput.broken ▸ hx
        exact le_of_le_of_eq (h.broken x hx) hput.invocation.symm
    · exact h
  all_goals
    exact h.touched (touches_serve rfl)
      (h.data.serve (keeps_data (fun works => ∀ w ∈ works, w.invocation ≤ s.invocation) rfl))

theorem Dated.afresh (h : Dated s) : Dated s.afresh := ⟨h.past, Holds.of_none h.data.db rfl, h.broken⟩

end Dates

section Wires

/-- The transaction may be the one the identity was given out for. -/
def Carries (i : Identity) (t : Txn) : Prop := ∀ x, i = .xid x → t.xid = some x

/-- No transaction that is still to come will carry the identity. -/
structure Issued (adapter : Adapter) (i : Identity) (s : Session) : Prop where
  counted : ∀ e, i = .epoch e → adapter = .sqlite
  spent : ∀ x, i = .xid x → x < s.nextXid

/-- As long as the transaction of the identity is open, all that invocation `k` has
written is in it, and nothing of it is durable. -/
structure Wired (adapter : Adapter) (i : Identity) (k : Nat) (s : Session) : Prop where
  issued : Issued adapter i s
  current : s.invocation = k
  intact : ∀ t, s.txn = some t → Carries i t → Underway (ofInvocation k) s ∧ ∀ b, (k, b) ∉ s.broken

theorem Issued.not_carried {t : Txn} (h : Issued adapter i s) (ha : adapter ≠ .sqlite)
    (ht : ∀ x, t.xid = some x → s.nextXid ≤ x) :
    ¬ Carries i t := by
  intro hc
  cases i with
  | epoch e => exact ha (h.counted e rfl)
  | xid x =>
      have hlt := h.spent x rfl
      have hle := ht x (hc x rfl)
      omega

theorem Issued.mono {s' : Session} (h : Issued adapter i s) (hn : s.nextXid ≤ s'.nextXid) : Issued adapter i s' :=
  ⟨h.counted, fun x hx => lt_of_lt_of_le (h.spent x hx) hn⟩

/-- Without a transaction there is nothing to show. -/
theorem Wired.of_none (h : Wired adapter i k s) (hn : s.nextXid ≤ s'.nextXid) (hi : s'.invocation = s.invocation)
    (ht : s'.txn = none) : Wired adapter i k s' := by
  refine ⟨h.issued.mono hn, hi.trans h.current, ?_⟩
  intro t ht'
  rw [ht] at ht'
  cases ht'

theorem Wired.write {scope : Scope} {tag : String} (h : Wired adapter i k s) :
    Wired adapter i k (s.step adapter scope (.write tag)) := by
  have hin : ofInvocation k (s.work scope (.statement tag)) = true := beq_iff_eq.2 h.current
  cases ht : s.txn with
  | some t =>
      have hstep : s.step adapter scope (.write tag) =
          { s with
            txn := some { t with
            working := { t.working with data := t.working.data ++ [s.work scope (.statement tag)] } }
            performed := s.performed ++ [s.work scope (.statement tag)] } := by
        simp only [Session.step, Session.record, Session.visible, Session.put, ht]
      refine ⟨?_, ?_, ?_⟩
      · rw [hstep]
        exact h.issued.mono le_rfl
      · rw [hstep]
        exact h.current
      · intro t' ht' hc
        rw [hstep] at ht'
        cases ht'
        obtain ⟨hunder, hbroken⟩ := h.intact t ht hc
        obtain ⟨hwritten, hsame, -⟩ : Underway (ofInvocation k) (s.step adapter scope (.write tag)) ∧
            (s.step adapter scope (.write tag)).broken = s.broken ∧ _ := hunder.record ht hin rfl
        exact ⟨hwritten, hsame ▸ hbroken⟩
  | none =>
      cases adapter with
      | sqlite =>
          have hstep : s.step .sqlite scope (.write tag) =
              { s with
                db := { s.visible with data := s.visible.data ++ [s.work scope (.statement tag)] }
                performed := s.performed ++ [s.work scope (.statement tag)] } := by
            simp only [Session.step, Session.record, Session.put, ht]
          rw [hstep]
          exact h.of_none le_rfl rfl ht
      | postgres =>
          have hstep : s.step .postgres scope (.write tag) =
              { s with
                db := { s.visible with data := s.visible.data ++ [s.work scope (.statement tag)] }
                performed := s.performed ++ [s.work scope (.statement tag)] } := by
            simp only [Session.step, Session.record, Session.put, ht]
          rw [hstep]
          exact h.of_none le_rfl rfl ht
      | oracle =>
          have hstep : s.step .oracle scope (.write tag) =
              { s with
                txn := some { working := { s.visible with data := s.visible.data ++ [s.work scope (.statement tag)] },
                              xid := some s.nextXid, engine := false }
                nextXid := s.nextXid + 1
                performed := s.performed ++ [s.work scope (.statement tag)] } := by
            simp only [Session.step, Session.record, Session.put, ht]
          rw [hstep]
          refine ⟨h.issued.mono (Nat.le_succ _), h.current, ?_⟩
          intro t' ht' hc
          cases ht'
          exact absurd hc (h.issued.not_carried (by decide) fun x hx => le_of_eq (Option.some.inj hx))

theorem Wired.endTxn (h : Wired adapter i k s) : Wired adapter i k s.endTxn := h.of_none le_rfl rfl rfl

/-- Whatever a statement does: the transaction of the identity holds everything still,
or it is gone. -/
theorem Wired.step {scope : Scope} (h : Wired adapter i k s) (step : Step) :
    Wired adapter i k (s.step adapter scope step) := by
  cases step with
  | write tag => exact h.write
  | rollback => cases adapter <;> [exact h; exact h.endTxn; exact h.endTxn]
  | commit chain =>
      cases ht : s.txn with
      | none => cases adapter <;> (simp only [Session.step, ht]; exact h)
      | some t =>
          cases adapter <;> simp only [Session.step, ht]
          case sqlite => exact h
          all_goals
            split
            · exact h.endTxn
            · refine ⟨h.issued.mono le_rfl, h.current, fun t' ht' hc => ?_⟩
              simp only [Option.ite_none_right_eq_some, Option.some.injEq] at ht'
              rw [← ht'.2] at hc
              exact absurd hc (h.issued.not_carried (by decide) fun x hx => by cases hx)

theorem Wired.steps {scope : Scope} (steps : List Step) (h : Wired adapter i k s) :
    Wired adapter i k (s.steps adapter scope steps) := by
  unfold Session.steps
  induction steps generalizing s with
  | nil => exact h
  | cons step steps ih => exact ih (h.step step)

theorem Wired.fail (h : Wired adapter i k s) : Wired adapter i k (s.fail adapter o) := by
  have hsame : s.fail adapter o = s ∨ s.fail adapter o = s.endTxn ∨
      ∃ t, s.txn = some t ∧ s.fail adapter o = { s with txn := some { t with aborted := true } } := by
    unfold Session.fail
    cases ht : s.txn with
    | none => exact .inl rfl
    | some t =>
        cases adapter <;> dsimp only
        case oracle => exact .inl rfl
        case sqlite => split <;> [exact .inr (.inl rfl); exact .inl rfl]
        case postgres => split <;> [exact .inr (.inr ⟨t, rfl, rfl⟩); exact .inl rfl]
  rcases hsame with he | he | ⟨t, ht, he⟩
  · rw [he]
    exact h
  · rw [he]
    exact h.endTxn
  · rw [he]
    refine ⟨h.issued.mono le_rfl, h.current, fun t' ht' hc => ?_⟩
    cases ht'
    obtain ⟨hunder, hbroken⟩ := h.intact t ht hc
    refine ⟨⟨hunder.durable, fun t' ht' => ?_⟩, hbroken⟩
    cases ht'
    exact hunder.working t ht

end Wires

section Code

/-- What the row of an atomic migration is written into: nothing of the invocation is
durable, the open transaction has all of it, and none of its statements has
committed. -/
structure Sealed (s : Session) : Prop where
  undecided : s.db.data.filter (ofInvocation s.invocation) = []
  whole : ∃ t, s.txn = some t ∧
    t.working.data.filter (ofInvocation s.invocation) = s.performed.filter (ofInvocation s.invocation)
  unbroken : ∀ b, (s.invocation, b) ∉ s.broken

def Shown (q : Request) (s : Session) : Prop := ∀ i, q.op = .insertHistory i → i.mode = .atomic → Sealed s

theorem Wired.sealed {t : Txn} (h : Wired adapter i k s) (ht : s.txn = some t) (hc : Carries i t) : Sealed s := by
  obtain ⟨hunder, hbroken⟩ := h.intact t ht hc
  rw [← h.current] at hunder hbroken
  exact ⟨hunder.durable, ⟨t, ht, hunder.working t ht⟩, hbroken⟩

/-- What the code of an atomic migration asks for. -/
theorem Wired.serve {q : Request} (hm : unit.mode = .atomic) (hq : UserOp unit q.op ∨ ∃ r, q.op = .ended unit.id r)
    (h : Wired adapter i k s) : Wired adapter i k (serve adapter q o s).2 := by
  have hrestartable : unit.mode ≠ .restartable := by
    rw [hm]
    decide
  obtain ⟨op, l⟩ := q
  rcases hq with hq | ⟨r, rfl⟩
  · cases op <;> try exact hq.elim
    case log event id =>
      have hlog : (World.serve adapter ⟨.log event id, l⟩ o s).2 = s ∨
          (World.serve adapter ⟨.log event id, l⟩ o s).2 = s.note event id := log_cases
      rcases hlog with hlog | hlog
      · rw [hlog]
        exact h
      · rw [hlog]
        refine ⟨h.issued.mono le_rfl, h.current, fun t ht hc => ?_⟩
        obtain ⟨hunder, hbroken⟩ := h.intact t ht hc
        exact ⟨⟨hunder.durable, hunder.working⟩, hbroken⟩
    case status => exact h
    case back => exact h
    case statement scope verb sql commitCapable =>
      exact submit_keeps (J := Wired adapter i k) h (fun h => h.steps _) (fun h => h.steps _) fun t ht => ht.fail
    case begin => exact absurd hq hrestartable
    case rollback => exact absurd hq hrestartable
    case establishIdentity => exact absurd hq hrestartable
    case readIdentity => exact absurd hq hrestartable
    case progressGet => exact absurd hq hrestartable
    case commit => exact absurd hq.1 hrestartable
    case progressSet => exact absurd hq.1 hrestartable
  · exact h

theorem Wired.checked {required : List RequiredObject} (h : Wired adapter i k s) :
    Wired adapter i k (World.serve adapter ⟨.checkRequired required, l⟩ o s).2 :=
  submit_keeps (J := Wired adapter i k) h (fun h => h) (fun h => h) fun _ ht => ht.fail

/-- The identity that is read belongs to the open transaction. -/
theorem wp_readTransactionIdentity_carries (l : Local) (s : Session) :
    wp (serve adapter) A (fun _ _ => True) (readTransactionIdentity adapter)
      (fun r _ s' => ∀ i, r = .ok (some i) → s' = s ∧ ∃ t, s.txn = some t ∧ Carries i t) l s := by
  have hcarries {x : Option Nat} {i : Identity} (hx : x = s.txn.bind (·.xid)) (hi : x.map Identity.xid = some i) :
      ∃ t, s.txn = some t ∧ Carries i t := by
    obtain ⟨n, hn, rfl⟩ := Option.map_eq_some_iff.1 hi
    rw [hx] at hn
    obtain ⟨t, ht, hxid⟩ := Option.bind_eq_some_iff.1 hn
    refine ⟨t, ht, fun m hm => ?_⟩
    cases hm
    exact hxid
  refine (wp_guarded _ _ _).2 ?_
  cases l.latch.error with
  | some e => exact fun i h => by cases h
  | none =>
      cases adapter with
      | sqlite =>
          refine wp_perform_bind trivial (fun o status _ hr => ?_) fun o e _ hr => by cases hr
          cases hr
          refine (wp_ite _ _ _).2 ?_
          split
          · next hopen =>
              intro i hi
              obtain ⟨t, ht⟩ := Option.isSome_iff_exists.1 (isSome_of_status hopen)
              refine ⟨rfl, t, ht, fun x hx => ?_⟩
              cases Except.ok.inj hi
              cases hx
          · exact fun i h => by cases h
      | postgres =>
          refine wp_perform_bind trivial (fun o status _ hr => ?_) fun o e _ hr => by cases hr
          cases hr
          refine (wp_ite _ _ _).2 ?_
          split
          · refine wp_perform_bind trivial (fun o x _ hr => ?_) fun o e _ _ i h => by cases h
            obtain ⟨hx, hs⟩ := submit_pure_ok hr
            exact fun i hi => ⟨hs, hcarries hx (Except.ok.inj hi)⟩
          · exact fun i h => by cases h
      | oracle =>
          refine wp_perform_bind trivial (fun o x _ hr => ?_) fun o e _ _ i h => by cases h
          obtain ⟨hx, hs⟩ := submit_pure_ok hr
          exact fun i hi => ⟨hs, hcarries hx (Except.ok.inj hi)⟩

theorem wp_checkTransactionIdentity_carries (i : Identity) (id scope outcome : String) (l : Local) (s : Session) :
    wp (serve adapter) A (fun _ _ => True) (checkTransactionIdentity adapter (some i) id scope outcome)
      (fun r _ s' => r = .ok () → s' = s ∧ ∃ t, s.txn = some t ∧ Carries i t) l s := by
  apply (wp_bind _ _).2
  apply wp_mono (wp_readTransactionIdentity_carries l s)
  intro r l' s' h
  cases r with
  | error e => exact fun h => by cases h
  | ok current =>
      apply (wp_ite _ _ _).2
      split
      · next hc => exact fun _ => h i (by rw [hc])
      · exact fun h => by cases h

/-- An identity is given out for a transaction that had none, and never again. -/
theorem wp_establish_issued (hs : adapter = .oracle ∨ s.txn.isSome = true) (hx : s.txn.bind (·.xid) = none) :
    wp (serve adapter) A (fun _ _ => True) (establishTransactionIdentity adapter)
      (fun r _ s' => ∀ i, r = .ok i → Issued adapter i s') l s := by
  have hassign (hs : adapter = .oracle ∨ s.txn.isSome = true) : (assignIdentity adapter s).1 = .ok s.nextXid ∧
      (assignIdentity adapter s).2.nextXid = s.nextXid + 1 := by
    unfold assignIdentity
    cases ht : s.txn with
    | some t =>
        have hnone : t.xid = none := by
          rw [ht] at hx
          exact hx
        simp only [hnone]
        exact ⟨trivial, trivial⟩
    | none =>
        rcases hs with rfl | hs
        · exact ⟨rfl, rfl⟩
        · rw [ht] at hs
          cases hs
  refine (wp_guarded _ _ _).2 ?_
  cases l.latch.error with
  | some e => exact fun i h => by cases h
  | none =>
      have hask (ha : adapter ≠ .sqlite) : wp (serve adapter) A (fun _ _ => True)
          (do return Identity.xid (← perform .establishIdentity))
          (fun r _ s' => ∀ i, r = .ok i → Issued adapter i s') l s := by
        refine wp_perform_bind trivial (fun o n _ hr => ?_) fun o e _ _ i h => by cases h
        intro i hi
        obtain ⟨hn, hserved⟩ := submit_ok hr
        obtain ⟨hvalue, hnext⟩ := hassign hs
        have hserved : (serve adapter ⟨.establishIdentity, l⟩ o s).2 = (assignIdentity adapter s).2 := hserved
        have hid : n = s.nextXid := Except.ok.inj (hn.symm.trans hvalue)
        cases Except.ok.inj hi
        rw [hserved]
        refine ⟨fun e he => (by cases he), fun x hx => ?_⟩
        cases hx
        rw [hnext, hid]
        exact Nat.lt_succ_self _
      cases adapter with
      | sqlite =>
          refine wp_perform_bind trivial (fun o status _ hr => ?_) fun o e _ hr => by cases hr
          cases hr
          refine (wp_ite _ _ _).2 ?_
          split
          · next =>
              intro i hi
              cases Except.ok.inj hi
              exact ⟨fun _ _ => rfl, fun x hx => by cases hx⟩
          · exact fun i h => by cases h
      | postgres =>
          apply wp_mono (hask (by decide))
          intro r l' s' h
          cases r with
          | ok i => exact h
          | error e => exact fun i h => by cases h
      | oracle =>
          apply wp_mono (hask (by decide))
          intro r l' s' h
          cases r with
          | ok i => exact h
          | error e => exact fun i h => by cases h

end Code

section Runs

abbrev anyOutcome : Request → Session → Outcome → Prop := fun _ _ _ => True

def unrowed (op : Op) : Prop := ∀ i, op = .insertHistory i → i.mode ≠ .atomic

theorem kept_dated : Kept adapter anyOutcome Shown (fun _ s => Dated s) unrowed where
  seen := fun _ _ _ hop _ i hi hm => absurd hm (hop i hi)
  step := fun _ _ _ _ _ _ hs => hs.serve
  state := fun _ _ _ _ hs => hs

theorem unrowed_of_txnOp (op : Op) (h : txnOp op = true) : unrowed op := by
  intro i hi
  rw [hi] at h
  cases h

section Units

variable (hm : unit.mode = .atomic)

include hm

theorem wp_invoke_wired (hl : l.latch.state = .open) (hd : Dated s) (hi : Issued input.adapter i s) :
    wp (serve input.adapter) anyOutcome Shown (invoke input unit none)
      (fun _ _ s' => Dated s' ∧ ∃ k, Wired input.adapter i k s') l s := by
  have hnone {works : List Work} (h : ∀ w ∈ works, w.invocation ≤ s.invocation) :
      works.filter (ofInvocation (s.invocation + 1)) = [] := by
    apply List.filter_eq_nil_iff.2
    intro w hw hk
    have hle := h w hw
    have hk : w.invocation = s.invocation + 1 := beq_iff_eq.1 hk
    omega
  have hwired : Wired input.adapter i (s.invocation + 1) { s with invocation := s.invocation + 1 } := by
    refine ⟨hi.mono le_rfl, rfl, fun _ _ _ => ⟨⟨hnone hd.data.db, fun t ht => ?_⟩, fun b hb => ?_⟩⟩
    · exact (hnone (hd.data.working t ht)).trans (hnone hd.past).symm
    · have hle := hd.broken _ hb
      dsimp only at hle
      omega
  have hdated : Dated (World.serve input.adapter ⟨.invoke unit.id none, l⟩ {} s).2 := hd.serve
  refine (wp_bind _ _).2
    ((wp_modify _).2 (wp_perform_bind (fun i hi => by cases hi) (fun o u _ hr => ?_) fun o e _ hr => by cases hr))
  have hentry : Quiet input.adapter (fun op => UserOp unit op ∨ ∃ r, op = .ended unit.id r) isOpen
      (runEntry input unit none) := Quiet.runEntry (fun _ h => .inl h) none fun r => .inr ⟨r, rfl⟩
  have hlift := wp_lift (A := anyOutcome) (J := fun s' => Dated s' ∧ Wired input.adapter i (s.invocation + 1) s')
    (hentry { l with facade := {} } l.latch (Later.refl _) hl) ⟨hdated, hwired⟩
    fun q o s' hq _ hs' => ⟨hs'.1.serve, hs'.2.serve hm hq⟩
  apply wp_weaken (wp_mono hlift ?_) (fun _ _ _ h => h)
  · intro q s' h i hi
    obtain ⟨⟨c, hord⟩, -⟩ := h
    rcases hord.kind with hq | ⟨r, hq⟩
    · rw [hi] at hq
      exact hq.elim
    · rw [hi] at hq
      cases hq
  · exact fun r l' s' h => ⟨h.2.1, _, h.2.2⟩

theorem wp_atomicBody_sealed (hl : l.latch.state = .open) (hd : Dated s) (hi : Issued input.adapter i s) :
    wp (serve input.adapter) anyOutcome Shown (atomicBody input unit i) (fun _ _ s' => Dated s') l s := by
  apply (wp_bind _ _).2
  apply wp_mono (wp_invoke_wired hm hl hd hi)
  rintro r l₁ s₁ ⟨hd₁, k, hw₁⟩
  cases r with
  | error e => exact hd₁
  | ok u =>
      refine (wp_bind _ _).2 (wp_checkLatch.2 ?_)
      cases hlatch : l₁.latch.error with
      | some e => exact hd₁
      | none =>
          have hl₁ : l₁.latch.state = .open := (RunLatch.error_eq_none_iff _).1 hlatch
          have hrequire :
              Obeys input.adapter (fun op => op = .checkRequired unit.required) isOpen (requireValid input unit) :=
            Obeys.requireValid rfl
          have hvalid := wp_lift (A := anyOutcome) (J := fun s' => Dated s' ∧ Wired input.adapter i k s')
            (hrequire l₁ l₁.latch (Later.refl _) hl₁) ⟨hd₁, hw₁⟩ fun q o s' hq _ hs' => by
              obtain ⟨op, l⟩ := q
              cases hq
              exact ⟨hs'.1.serve, hs'.2.checked⟩
          apply (wp_bind _ _).2
          apply wp_weaken (wp_mono hvalid ?_) (fun _ _ _ h => h)
          · intro q s' h i hi
            obtain ⟨⟨c, hord⟩, -⟩ := h
            have hq := hord.kind
            rw [hi] at hq
            cases hq
          · rintro r l₂ s₂ ⟨-, hd₂, hw₂⟩
            cases r with
            | error e => exact hd₂
            | ok u =>
                have hdated : Kept input.adapter anyOutcome Shown (fun _ s => Dated s) unrowed := kept_dated
                have hkept := hdated.checkTransactionIdentity unrowed_of_txnOp (some i) unit.id "atomic"
                  "No success row was written." l₂ s₂ hd₂
                have hboth := wp_and hkept (wp_checkTransactionIdentity_carries i unit.id "atomic"
                  "No success row was written." l₂ s₂)
                apply (wp_bind _ _).2
                apply wp_mono (wp_weaken hboth (fun _ _ _ h => h) fun _ _ h => h.1)
                rintro r l₃ s₃ ⟨hd₃, hsame⟩
                cases r with
                | error e => exact hd₃
                | ok u =>
                    obtain ⟨rfl, t, ht, hc⟩ := hsame rfl
                    refine wp_exec (fun _ i _ _ => hw₂.sealed ht hc) (fun e _ => hd₃)
                      (fun _ o a _ _ => hd₃.serve) fun o e _ _ => hd₃.serve

theorem maintains_runAtomic_dated :
    Maintains (serve input.adapter) anyOutcome Shown (fun _ s => Dated s) (runAtomic input unit) := by
  intro l s hd
  have hdated : Kept input.adapter anyOutcome Shown (fun _ s => Dated s) unrowed := kept_dated
  have hbegin := wp_and (hdated.begin unrowed_of_txnOp l s hd) (wp_begin l s)
  apply (wp_bind _ _).2
  apply wp_mono (wp_weaken hbegin (fun _ _ _ h => h) fun _ _ h => h.1)
  rintro r l₁ s₁ ⟨hd₁, hfresh⟩
  cases r with
  | error e => exact hd₁
  | ok u =>
      obtain ⟨-, -, hidle, hfresh⟩ := hfresh rfl
      have hunassigned : s₁.txn.bind (·.xid) = none := by
        cases ha : input.adapter with
        | oracle =>
            rw [ha] at hidle hfresh
            rw [show s₁ = s from hfresh]
            exact hidle
        | sqlite =>
            rw [ha] at hfresh
            rw [show s₁ = _ from hfresh]
            rfl
        | postgres =>
            rw [ha] at hfresh
            rw [show s₁ = _ from hfresh]
            rfl
      have hestablish :
          Obeys input.adapter (fun op => txnOp op = true) any (establishTransactionIdentity input.adapter) :=
        (Speaks.establishTransactionIdentity fun _ h => h).obeys
      have hkept := hdated.lift (hestablish l₁ l₁.latch (Later.refl _) trivial) unrowed_of_txnOp hd₁
      have hboth := wp_and hkept (wp_establish_issued (l := l₁) hfresh.writable hunassigned)
      apply (wp_bind _ _).2
      apply wp_mono (wp_weaken hboth (fun _ _ _ h => h) fun _ _ h => h.1)
      rintro r l₂ s₂ ⟨⟨⟨c, -, -, ht₂⟩, hd₂⟩, hissued⟩
      cases r with
      | error e => exact hd₂
      | ok i =>
          have hi := hissued i rfl
          have hhandle (e : Exc) :
              Maintains (serve input.adapter) anyOutcome Shown (fun _ s => Dated s) (handleAtomic input unit e) := by
            intro l s hs
            have hobeys : Obeys input.adapter (fun op => closingOp op = true) any (handleAtomic input unit e) :=
              Obeys.handleAtomic (by rfl) (by rfl) e
            have hclosing (op : Op) (h : closingOp op = true) : unrowed op := by
              intro i hi
              rw [hi] at h
              cases h
            exact wp_mono (kept_dated.lift (hobeys l l.latch (Later.refl _) trivial) hclosing hs) fun _ _ _ h => h.2
          have hcommit : Maintains (serve input.adapter) anyOutcome Shown (fun _ s => Dated s)
              (durableCommit input.adapter .atomicCompletion (some unit.id)) :=
            hdated.durableCommit unrowed_of_txnOp fun i hi => by cases hi
          apply (wp_bind _ _).2
          apply (wp_tryCatch _ _).2
          apply wp_mono (wp_atomicBody_sealed hm ht₂.isOpen hd₂ hi)
          intro r l₃ s₃ hd₃
          cases r with
          | ok u => exact hcommit l₃ s₃ hd₃
          | error e =>
              apply wp_mono (hhandle e l₃ s₃ hd₃)
              intro r l₄ s₄ hd₄
              cases r with
              | ok u => exact hcommit l₄ s₄ hd₄
              | error e => exact hd₄

end Units

theorem maintains_runUnit_dated (active : Option HistoryRow) (unit : CapturedUnit) :
    Maintains (serve input.adapter) anyOutcome Shown (fun _ s => Dated s) (runUnit input active unit) := by
  unfold Engine.runUnit
  cases hmode : unit.mode with
  | atomic => exact maintains_runAtomic_dated hmode
  | restartable =>
      intro l s hs
      have hobeys : Obeys input.adapter (Writes unit) any
          (runRestartable input unit (active.filter fun row => row.migrationId == unit.id)) :=
        writes_runRestartable (fun _ h => h) hmode _
      have hwrites (op : Op) (h : Writes unit op) : unrowed op := by
        intro i hi
        rw [hi] at h
        rw [h.2.2.2.2, hmode]
        decide
      exact wp_mono (kept_dated.lift (hobeys l l.latch (Later.refl _) trivial) hwrites hs) fun _ _ _ h => h.2

theorem passes_dated : Passes input anyOutcome Shown Dated Dated where
  between := by
    apply kept_dated.weaken
    intro op hop i hi
    subst hi
    rcases hop with hop | hop | ⟨event, id, he⟩
    · cases hop
    · cases hop
    · cases he
  closing := by
    apply kept_dated.weaken
    intro op hop i hi
    subst hi
    cases hop
  always := fun _ h => h
  unit := by
    intro active _ unit _ _ l s _ _ hs
    exact wp_mono (maintains_runUnit_dated active unit l s hs) fun _ _ _ h => ⟨h, fun _ => h⟩

theorem dated_final (hd : Dated s) (os : List Outcome) :
    Dated (final (World.serve adapter) os (Engine.run input {}) s.afresh) := by
  have hrun : Dated s.afresh → Dated (final (World.serve adapter) os (Engine.run input {}) s.afresh) :=
    Lib.Interaction.final_trans (T := fun (s s' : Session) => Dated s → Dated s') (fun _ h => h)
      (fun _ _ _ h h' hd => h' (h hd)) os fun _ _ hd => Dated.serve hd
  exact hrun hd.afresh

theorem Sequence.dated (h : Sequence adapter s s') (hd : Dated s) : Dated s' := by
  induction h with
  | refl => exact hd
  | run _ _ os _ ih => exact dated_final ih os

/-- The tripwire. Whatever its code does to the transaction, the row of an atomic
migration is only ever written into the one that was opened for it: all that the
invocation has written is in there, and nothing of it has been committed. -/
theorem tripwire (hd : Dated s) (h : Sequence adapter s s') (input : Input) (ha : input.adapter = adapter)
    (os : List Outcome) :
    ∀ x ∈ trace (serve adapter) os (Engine.run input {}) s'.afresh, ∀ i, x.request.op = .insertHistory i →
      i.mode = .atomic → Sealed x.before := by
  subst ha
  have hwp : wp (serve input.adapter) anyOutcome Shown (Engine.run input) _ {} s'.afresh :=
    passes_dated.run rfl (Sequence.dated h hd).afresh
  exact fun x hx i hi hm => (play_wp hwp os fun _ _ => trivial).1 x hx i hi hm

section Example

def writingRun : Input := soleRun .postgres .atomic (.call (.execute "insert") fun _ => .ret .nothing)

def hidden : List Outcome := List.replicate 60 { now := 1, steps := [.write "row", .commit false] }

def plain : List Outcome := List.replicate 60 { now := 1, steps := [.write "row"] }

theorem newNamespace_dated : Dated (newNamespace .postgres) := by
  refine ⟨fun w hw => absurd hw List.not_mem_nil, Holds.of_none (fun w hw => absurd hw List.not_mem_nil) rfl, ?_⟩
  exact fun x hx => absurd hx List.not_mem_nil

def rows (x : Exchange Request Outcome Session) : Bool :=
  match x.request.op with
  | .insertHistory i => i.mode == .atomic
  | _ => false

theorem rows_iff {x : Exchange Request Outcome Session} (h : rows x = true) :
    ∃ i, x.request.op = .insertHistory i ∧ i.mode = .atomic := by
  unfold rows at h
  split at h
  · next i hi => exact ⟨i, hi, beq_iff_eq.1 h⟩
  · cases h

theorem tripwire_plain :
    (final (serve .postgres) hidden (Engine.run writingRun {}) (newNamespace .postgres).afresh).db.history = [] ∧
      (final (serve .postgres) hidden (Engine.run writingRun {}) (newNamespace .postgres).afresh).db.data.length = 1 ∧
      ∃ x ∈ trace (serve .postgres) plain (Engine.run writingRun {}) (newNamespace .postgres).afresh,
        x.before.performed.length = 1 ∧ Sealed x.before := by
  refine ⟨by decide +kernel, by decide +kernel, ?_⟩
  have hany : (trace (serve .postgres) plain (Engine.run writingRun {}) (newNamespace .postgres).afresh).any
      (fun x => rows x && x.before.performed.length == 1) = true := by decide +kernel
  obtain ⟨x, hx, hrow⟩ := List.any_eq_true.1 hany
  obtain ⟨hrow, hlen⟩ := Bool.and_eq_true_iff.1 hrow
  obtain ⟨i, hi, hm⟩ := rows_iff hrow
  exact ⟨x, hx, beq_iff_eq.1 hlen, tripwire newNamespace_dated .refl writingRun rfl plain x hx i hi hm⟩

end Example

end Runs

end Migr8.Tripwire
