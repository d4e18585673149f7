import Mathlib.Data.List.Pairwise
import Mathlib.Order.Bounds.Basic
import Mathlib.Order.Interval.Set.Basic
import Migr8.DurableHistory
import Migr8.Effects
import Migr8.Keeping

namespace Migr8.ExactlyOnce

open Errors Model Latch Driver Database World Adapters Metadata Context Engine Rules Discipline Obedience
open EngineObedience Teardown RunObedience Sessions Shape Frames Transactions Transitions Plans Execution
open DurableHistory Effects Keeping Lib.Process
open Lib.Interaction (Exchange trace final play_wp final_wp)

variable {adapter : Adapter} {input : Input} {unit : CapturedUnit} {owner : String} {s s' : Session} {l : Local}
  {o : Outcome}
  {k : Nat} {X P : List Work} {R : List HistoryRow} {mine : Set Nat}

/-- What `owner` has in the database next to everything it has ever written: nothing
at all, or its SUCCESS row and the whole work of the latest invocation of `mine`. -/
def Settled (mine : Set Nat) (X : List Work) (R : List HistoryRow) (P : List Work) : Prop :=
  R = [] ∧ X = [] ∨
    ∃ r k, R = [r] ∧ r.isSuccess = true ∧ IsGreatest mine k ∧ X = P.filter fun w => w.invocation == k

def Once (mine : Set Nat) (owner : String) (s : Session) : Prop :=
  Settled mine (workOf owner s.db.data) (rowsOf owner s.db) (workOf owner s.performed)

def sofar (mine : Set Nat) (s : Session) : Set Nat := mine ∩ Set.Iic s.invocation

/-- The invocation that is asked for is one of `mine` exactly when it is of the code of `owner`. -/
def Names (mine : Set Nat) (owner : String) (q : Request) (s : Session) : Prop :=
  ∀ id attempt, q.op = .invoke id attempt → (s.invocation + 1 ∈ mine ↔ id = owner)

/-- The code of `owner` neither ends the transaction it runs in nor takes it down
when a statement fails. -/
def Tame (adapter : Adapter) (owner : String) (q : Request) (o : Outcome) : Prop :=
  ∀ scope verb sql commitCapable, q.op = .statement scope verb sql commitCapable → scope.owner = owner →
    (∀ step ∈ statementSteps adapter verb o, step.isWrite = true) ∧ (adapter = .sqlite → o.spoils = false)

def Between (mine : Set Nat) (owner : String) (s : Session) : Prop :=
  ∃ X R P, Settled (sofar mine s) X R P ∧ Apart owner X R P s

theorem Apart.once (h : Apart owner X R P s) (hd : Settled mine X R P) : Once mine owner s := by
  unfold Once
  rw [h.work.db, h.rows.db, h.performed]
  exact hd

theorem Between.once (h : Between mine owner s) : Once (sofar mine s) owner s := by
  obtain ⟨X, R, P, hd, h⟩ := h
  exact Apart.once h hd

theorem invocation_serve (adapter : Adapter) (q : Request) (o : Outcome) (s : Session) :
    (serve adapter q o s).2.invocation = s.invocation ∨
      ∃ id attempt, q.op = .invoke id attempt ∧ (serve adapter q o s).2.invocation = s.invocation + 1 := by
  have hfail (t : Session) (h : t.invocation = s.invocation) : (t.fail adapter o).invocation = s.invocation :=
    touches_fail.invocation.trans h
  obtain ⟨op, l⟩ := q
  cases op
  case invoke id attempt => exact .inr ⟨id, attempt, rfl, rfl⟩
  case log event row =>
    have hlog : (World.serve adapter ⟨.log event row, l⟩ o s).2 = s ∨
        (World.serve adapter ⟨.log event row, l⟩ o s).2 = s.note event row := log_cases
    rcases hlog with hlog | hlog <;> rw [hlog] <;> exact .inl rfl
  case statement scope verb sql commitCapable =>
    have hsteps (steps : List Step) (h : s.invocation = s.invocation) :
        (s.steps adapter scope steps).invocation = s.invocation := congrArg Prod.snd (ledger_steps steps)
    exact .inl (submit_keeps (J := fun t => t.invocation = s.invocation) rfl (hsteps _) (hsteps _) hfail)
  case progressSet scope key value =>
    refine .inl (submit_keeps (J := fun t => t.invocation = s.invocation) rfl (fun _ => ?_) (fun h => h) hfail)
    unfold World.setProgress
    split
    · exact congrArg Prod.snd ledger_record
    · rfl
  all_goals exact .inl (touches_serve rfl).invocation

/-- The code of others runs without one of `mine` being made. -/
theorem sofar_serve {q : Request} (hq : Foreign owner q.op) (hn : Names mine owner q s) :
    sofar mine (serve adapter q o s).2 = sofar mine s := by
  rcases invocation_serve adapter q o s with h | ⟨id, attempt, hop, h⟩
  · rw [sofar, h]
    rfl
  · have hother : s.invocation + 1 ∉ mine := by
      intro hmem
      rw [hop] at hq
      exact hq ((hn id attempt hop).1 hmem)
    unfold sofar
    rw [h]
    ext j
    constructor
    · rintro ⟨hj, hle⟩
      refine ⟨hj, ?_⟩
      have hne : j ≠ s.invocation + 1 := fun he => hother (he ▸ hj)
      rw [Set.mem_Iic] at hle ⊢
      omega
    · rintro ⟨hj, hle⟩
      exact ⟨hj, Nat.le_succ_of_le hle⟩

section Work

/-- Nothing of `owner` is durable. -/
def Blank (owner : String) (d : Db) : Prop := rowsOf owner d = [] ∧ workOf owner d.data = []

theorem Blank.once (h : Blank owner s.db) : Once mine owner s := .inl h

/-- The code of `owner` is at work in its `k`th invocation. -/
structure Mid (owner : String) (k : Nat) (s : Session) : Prop where
  blank : Blank owner s.db
  txn : ∃ t, s.txn = some t ∧ rowsOf owner t.working = [] ∧
    workOf owner t.working.data = (workOf owner s.performed).filter fun w => w.invocation == k
  current : s.invocation = k
  past : ∀ w ∈ s.performed, w.invocation ≤ k

theorem Mid.write {scope : Scope} {step : Step} (h : Mid owner k s) (ho : scope.owner = owner)
    (hw : step.isWrite = true) :
    Mid owner k (s.step adapter scope step) := by
  cases step with
  | commit chain => cases hw
  | rollback => cases hw
  | write tag =>
      obtain ⟨t, ht, hrows, hwork⟩ := h.txn
      have hvisible : s.visible = t.working := by rw [Session.visible, ht]
      have hown : ∀ w ∈ [s.work scope (.statement tag)], w.owner = owner := by
        intro w hw
        rw [List.mem_singleton.1 hw]
        exact ho
      have hstep : s.step adapter scope (.write tag) =
          { s with
            txn := some { t with
            working := { t.working with data := t.working.data ++ [s.work scope (.statement tag)] } }
            performed := s.performed ++ [s.work scope (.statement tag)] } := by
        simp only [Session.step, Session.record, hvisible, Session.put, ht]
      rw [hstep]
      refine ⟨h.blank, ⟨_, rfl, hrows, ?_⟩, h.current, ?_⟩
      · have hk : (s.work scope (.statement tag)).invocation == k := beq_iff_eq.2 h.current
        dsimp only
        rw [workOf_own hown, workOf_own hown, List.filter_append, hwork, List.filter_singleton, hk]
        rfl
      · intro w hw
        rcases List.mem_append.1 hw with hw | hw
        · exact h.past w hw
        · rw [List.mem_singleton.1 hw]
          exact le_of_eq h.current

theorem Mid.steps {scope : Scope} (ho : scope.owner = owner) (steps : List Step)
    (hw : ∀ step ∈ steps, step.isWrite = true) (h : Mid owner k s) : Mid owner k (s.steps adapter scope steps) := by
  unfold Session.steps
  induction steps generalizing s with
  | nil => exact h
  | cons step steps ih =>
      apply ih
      · exact fun step hs => hw step (List.mem_cons_of_mem _ hs)
      · exact h.write ho (hw step List.mem_cons_self)

theorem Mid.fail (h : Mid owner k s) (hs : adapter = .sqlite → o.spoils = false) : Mid owner k (s.fail adapter o) := by
  obtain ⟨t, ht, hrows, hwork⟩ := h.txn
  have hsame : s.fail adapter o = s ∨ s.fail adapter o = { s with txn := some { t with aborted := true } } := by
    unfold Session.fail
    rw [ht]
    cases adapter <;> dsimp only
    case sqlite =>
      rw [hs rfl]
      exact .inl rfl
    case postgres =>
      split
      · exact .inr rfl
      · exact .inl rfl
    case oracle => exact .inl rfl
  rcases hsame with he | he
  · rw [he]
    exact h
  · rw [he]
    exact ⟨h.blank, ⟨_, rfl, hrows, hwork⟩, h.current, h.past⟩

theorem mem_settledSteps {steps : List Step} {step : Step} (h : step ∈ settledSteps steps) : step ∈ steps := by
  unfold settledSteps at h
  have hmem := (List.dropWhile_sublist _).subset (List.mem_reverse.1 h)
  exact List.mem_reverse.1 hmem

theorem keptSteps_writes {verb : Verb} (h : ∀ step ∈ statementSteps adapter verb o, step.isWrite = true) :
    ∀ step ∈ keptSteps adapter verb o, step.isWrite = true := by
  intro step hs
  unfold keptSteps at hs
  split at hs
  · apply h
    unfold statementSteps
    split
    · exact List.mem_append_left _ (List.mem_cons_of_mem _ hs)
    · exact hs
  · exact h step (mem_settledSteps hs)

/-- What the code of an atomic migration asks for. -/
theorem Mid.serve {q : Request} (hm : unit.mode = .atomic) (ho : unit.id = owner)
    (hq : UserOp unit q.op ∨ ∃ r, q.op = .ended unit.id r) (ht : Tame adapter owner q o) (h : Mid owner k s) :
    Mid owner k (serve adapter q o s).2 := by
  have hrestartable : unit.mode ≠ .restartable := by
    rw [hm]
    decide
  obtain ⟨op, l⟩ := q
  rcases hq with hq | ⟨r, rfl⟩
  · cases op <;> try exact hq.elim
    case log event row =>
      have hlog : (World.serve adapter ⟨.log event row, l⟩ o s).2 = s ∨
          (World.serve adapter ⟨.log event row, l⟩ o s).2 = s.note event row := log_cases
      rcases hlog with hlog | hlog
      · rw [hlog]
        exact h
      · rw [hlog]
        exact ⟨h.blank, h.txn, h.current, h.past⟩
    case status => exact h
    case back => exact h
    case statement scope verb sql commitCapable =>
      have hown : scope.owner = owner := hq.trans ho
      obtain ⟨hwrites, hspoils⟩ := ht scope verb sql commitCapable rfl hown
      exact submit_keeps (J := Mid owner k) h (fun h => h.steps hown _ hwrites)
        (fun h => h.steps hown _ (keptSteps_writes hwrites)) fun t ht => ht.fail hspoils
    case begin => exact absurd hq hrestartable
    case rollback => exact absurd hq hrestartable
    case establishIdentity => exact absurd hq hrestartable
    case readIdentity => exact absurd hq hrestartable
    case progressGet => exact absurd hq hrestartable
    case commit => exact absurd hq.1 hrestartable
    case progressSet => exact absurd hq.1 hrestartable
  · exact h

end Work

section Atomic

/-- Only what the code of `owner` submits is restricted, and its invocations are known. -/
abbrev tame (adapter : Adapter) (mine : Set Nat) (owner : String) : Request → Session → Outcome → Prop :=
  fun q s o => Tame adapter owner q o ∧ Names mine owner q s

theorem txn_db {q : Request} (h : txnOp q.op = true) : (serve adapter q o s).2.db = s.db := by
  obtain ⟨op, l⟩ := q
  cases op <;> try cases h
  case status => rfl
  case readIdentity => exact closing_db rfl
  case rollback => exact closing_db rfl
  case begin =>
    apply submit_keeps (J := fun s' => s'.db = s.db) rfl ?_ id fun _ h => fail_db.trans h
    intro _
    unfold openTxn
    split <;> rfl
  case establishIdentity =>
    apply submit_keeps (J := fun s' => s'.db = s.db) rfl ?_ id fun _ h => fail_db.trans h
    intro _
    unfold assignIdentity
    cases s.txn with
    | none => rfl
    | some t =>
        dsimp only
        split <;> rfl

theorem submit_ok {α : Type} {commitCapable : Bool} {run : Session → Except DriverError α × Session}
    {kept : Session → Session}
    {a : α} (h : (submit adapter commitCapable o run kept s).1 = .ok a) :
    (run s).1 = .ok a ∧ (submit adapter commitCapable o run kept s).2 = (run s).2 := by
  unfold submit carryOut at h ⊢
  cases he : o.fault.exc with
  | some e =>
      rw [he] at h
      cases h
  | none =>
      rw [he] at h
      dsimp only at h ⊢
      cases ha : s.aborted with
      | true =>
          rw [ha] at h
          cases h
      | false =>
          simp only [ha, Bool.false_eq_true, if_false] at h ⊢
          cases hr : run s with
          | mk r s' =>
              rw [hr] at h
              cases r with
              | ok b =>
                  cases Except.ok.inj h
                  exact ⟨rfl, rfl⟩
              | error e => cases h

/-- A transaction with an identity is open. -/
theorem wp_establish {A : Request → Session → Outcome → Prop} (hs : adapter = .oracle ∨ s.txn.isSome = true) :
    wp (serve adapter) A (fun _ _ => True) (establishTransactionIdentity adapter)
      (fun r _ s' => ∀ i, r = .ok i → s'.txn.isSome = true) l s := by
  have hassign : (assignIdentity adapter s).2.txn.isSome = true := by
    unfold assignIdentity
    cases ht : s.txn with
    | some t =>
        dsimp only
        split
        · rw [ht]
          rfl
        · rfl
    | none =>
        rcases hs with rfl | hs
        · rfl
        · rw [ht] at hs
          cases hs
  have hask {β : Type} (f : Nat → β) :
      wp (serve adapter) A (fun _ _ => True) (do return f (← perform .establishIdentity))
      (fun r _ s' => ∀ i, r = .ok i → s'.txn.isSome = true) l s := by
    refine wp_perform_bind trivial (fun o a _ hr => ?_) fun o e _ _ i h => by cases h
    intro i _
    rw [show (serve adapter ⟨.establishIdentity, l⟩ o s).2 = (assignIdentity adapter s).2 from (submit_ok hr).2]
    exact hassign
  refine (wp_guarded _ _ _).2 ?_
  cases l.latch.error with
  | some e => exact fun i h => by cases h
  | none =>
      cases adapter with
      | sqlite =>
          refine wp_perform_bind trivial (fun o status _ hr => ?_) fun o e _ hr => by cases hr
          cases hr
          refine (wp_ite _ _ _).2 ?_
          split
          · next h => exact fun _ _ => isSome_of_status h
          · exact fun i h => by cases h
      | postgres =>
          apply wp_mono (hask Identity.xid)
          intro r l' s' h
          cases r with
          | ok i => exact h
          | error e => exact fun i h => by cases h
      | oracle =>
          apply wp_mono (hask Identity.xid)
          intro r l' s' h
          cases r with
          | ok i => exact h
          | error e => exact fun i h => by cases h

variable (hm : unit.mode = .atomic) (ho : unit.id = owner)

include hm ho

theorem wp_invoke_mid (hl : l.latch.state = .open) (hs : Apart owner [] [] P s) (ht : s.txn.isSome = true) :
    wp (serve input.adapter) (tame input.adapter mine owner) (fun _ s => Once (sofar mine s) owner s)
    (invoke input unit none)
      (fun _ _ s' => ∃ k ∈ mine, Mid owner k s') l s := by
  have hmid : Mid owner (s.invocation + 1) { s with invocation := s.invocation + 1 } := by
    obtain ⟨t, ht⟩ := Option.isSome_iff_exists.1 ht
    refine ⟨⟨hs.rows.db, hs.work.db⟩, ⟨t, ht, hs.rows.working t ht, ?_⟩, rfl, fun w hw =>
      Nat.le_succ_of_le (hs.past w hw)⟩
    have hnone : (workOf owner s.performed).filter (fun w => w.invocation == s.invocation + 1) = [] := by
      apply List.filter_eq_nil_iff.2
      intro w hw
      have hle := hs.past w (List.mem_filter.1 hw).1
      simp only [beq_iff_eq]
      omega
    exact (hs.work.working t ht).trans hnone.symm
  have hfirst : Once (sofar mine s) owner s := Blank.once ⟨hs.rows.db, hs.work.db⟩
  refine (wp_bind _ _).2 ((wp_modify _).2 (wp_perform_bind hfirst (fun o u ha hr => ?_) fun o e _ hr => by cases hr))
  have hmine : s.invocation + 1 ∈ mine := (ha.2 unit.id none rfl).2 ho
  have hentry : Quiet input.adapter (fun op => UserOp unit op ∨ ∃ r, op = .ended unit.id r) isOpen
      (runEntry input unit none) := Quiet.runEntry (fun _ h => .inl h) none fun r => .inr ⟨r, rfl⟩
  have hlift := wp_lift (A := tame input.adapter mine owner) (J := Mid owner (s.invocation + 1))
    (hentry { l with facade := {} } l.latch (Later.refl _) hl) hmid fun q o s' hq ha hs' => Mid.serve hm ho hq ha.1 hs'
  exact wp_weaken (wp_mono hlift fun _ _ _ h => ⟨_, hmine, h.2⟩) (fun _ _ _ h => h) fun _ _ h => Blank.once h.2.blank

omit hm ho in
theorem obeys_requireValid :
    Obeys input.adapter (fun op => op = .checkRequired unit.required ∧ input.adapter = .oracle) isOpen
    (requireValid input unit) := by
  by_cases ha : input.adapter = .oracle
  · exact Obeys.requireValid ⟨rfl, ha⟩
  · have hcheck : Obeys input.adapter (fun op => op = .checkRequired unit.required ∧ input.adapter = .oracle) isOpen
        (checkRequiredObjects input.adapter unit.required) := by
      apply Obeys.ite (Obeys.of_steady (Steady.pure _))
      apply Obeys.weaken (Obeys.guarded ?_) fun _ _ => trivial
      apply Obeys.of_steady
      cases hadapter : input.adapter with
      | sqlite => exact Steady.pure _
      | postgres => exact Steady.pure _
      | oracle => exact absurd hadapter ha
    apply hcheck.bind
    intro validity
    refine Obeys.bind_steady (Steady.modify fun _ => ⟨rfl, rfl⟩) fun _ => ?_
    exact Obeys.ite (Obeys.of_steady (Steady.pure ())) (Obeys.raise _)

omit hm ho in
theorem Mid.checked {q : Request} (hq : q.op = .checkRequired unit.required) (h : Mid owner k s) :
    Mid owner k (World.serve .oracle q o s).2 := by
  obtain ⟨op, l⟩ := q
  cases hq
  exact submit_keeps (J := Mid owner k) h (fun h => h) (fun h => h) fun t ht => ht.fail fun h => by cases h

/-- The work of `owner` and its row, about to become durable together. -/
structure Landing (mine : Set Nat) (owner : String) (s : Session) : Prop where
  blank : Blank owner s.db
  current : s.invocation ∈ mine
  txn : ∃ t r, s.txn = some t ∧ t.aborted = false ∧ rowsOf owner t.working = [r] ∧ r.isSuccess = true ∧
    workOf owner t.working.data = (workOf owner s.performed).filter fun w => w.invocation == s.invocation
  past : ∀ w ∈ s.performed, w.invocation ≤ s.invocation

omit hm in
theorem wp_insert_landing (hk : k ∈ mine) (hs : Mid owner k s) :
    wp (serve input.adapter) (tame input.adapter mine owner) (fun _ s => Once (sofar mine s) owner s)
    (insertSuccessRow input.config unit)
      (fun r _ s' => Blank owner s'.db ∧ (r = .ok () → Landing mine owner s')) l s := by
  obtain ⟨t, ht, hrows, hwork⟩ := hs.txn
  have hwritable : Writable input.adapter s := .inr (by rw [ht]; rfl)
  have hdb (o : Outcome) : (serve input.adapter ⟨.insertHistory (successInsert input unit), l⟩ o s).2.db = s.db :=
    (submit_write hwritable).1
  have hblank (o : Outcome) :
      Blank owner (serve input.adapter ⟨.insertHistory (successInsert input unit), l⟩ o s).2.db := by
    rw [hdb]
    exact hs.blank
  have hexec : insertSuccessRow input.config unit = exec input.config (.insertHistory (successInsert input unit))
      "history SUCCESS insert" Boundary.atomicCompletion.value (some unit.id) := rfl
  rw [hexec]
  apply wp_exec
  · exact fun _ => Blank.once hs.blank
  · exact fun e _ => ⟨hs.blank, fun h => by cases h⟩
  · intro _ o a _ hr
    refine ⟨hblank o, fun _ => ?_⟩
    obtain ⟨t', ht', ha', hf⟩ := (submit_write hwritable).2 a hr
    have hvisible : s.visible = t.working := by rw [Session.visible, ht]
    have htouch : Touches s (serve input.adapter ⟨.insertHistory (successInsert input unit), l⟩ o s).2 :=
      touches_serve rfl
    have hworking :
        t'.working = { t.working with history := t.working.history ++ [(successInsert input unit).row o.now] } := by
      rw [hvisible] at hf
      unfold insertHistory at hf
      split at hf
      · exact (congrArg Prod.snd (Except.ok.inj hf)).symm
      · cases hf
    have hcurrent := htouch.invocation.trans hs.current
    refine ⟨hblank o, by rw [hcurrent]; exact hk, ⟨t', (successInsert input unit).row o.now, ht', ha', ?_, rfl, ?_⟩, ?_⟩
    · have hid : ((successInsert input unit).row o.now).migrationId == owner := beq_iff_eq.2 ho
      rw [hworking, rowsOf]
      dsimp only
      rw [List.filter_append, List.filter_singleton, hid, show t.working.history.filter _ = [] from hrows]
      rfl
    · rw [hworking, htouch.performed, hcurrent]
      exact hwork
    · rw [htouch.performed, hcurrent]
      exact hs.past
  · exact fun o e _ _ => ⟨hblank o, fun h => by cases h⟩

theorem wp_atomicBody_landing (identity : Identity) (hl : l.latch.state = .open) (hs : Apart owner [] [] P s)
    (ht : s.txn.isSome = true) :
    wp (serve input.adapter) (tame input.adapter mine owner) (fun _ s => Once (sofar mine s) owner s)
    (atomicBody input unit identity)
      (fun r _ s' => Blank owner s'.db ∧ (r = .ok () → Landing mine owner s')) l s := by
  have hfailed {e : Exc} {s : Session} (h : Blank owner s.db) :
      Blank owner s.db ∧ ((.error e : Except Exc Unit) = .ok () → Landing mine owner s) := ⟨h, fun h => by cases h⟩
  apply (wp_bind _ _).2
  apply wp_mono (wp_invoke_mid hm ho hl hs ht)
  rintro r l₁ s₁ ⟨k, hk, hs₁⟩
  cases r with
  | error e => exact hfailed hs₁.blank
  | ok u =>
      refine (wp_bind _ _).2 (wp_checkLatch.2 ?_)
      cases hlatch : l₁.latch.error with
      | some e => exact hfailed hs₁.blank
      | none =>
          have hl₁ : l₁.latch.state = .open := (RunLatch.error_eq_none_iff _).1 hlatch
          have hrequire : Obeys input.adapter _ isOpen (requireValid input unit) := obeys_requireValid
          have hvalid := wp_lift (A := tame input.adapter mine owner) (J := Mid owner k)
            (hrequire l₁ l₁.latch (Later.refl _) hl₁) hs₁ fun q o s' hq _ hs' => by
              obtain ⟨hop, ha⟩ := hq
              rw [ha]
              exact hs'.checked hop
          apply (wp_bind _ _).2
          apply wp_mono (wp_weaken hvalid (fun _ _ _ h => h) fun _ _ h => Blank.once h.2.blank)
          rintro r l₂ s₂ ⟨⟨c, -, -, ht₂⟩, hs₂⟩
          cases r with
          | error e => exact hfailed hs₂.blank
          | ok u =>
              have hcheck : Obeys input.adapter (fun op => txnOp op = true) isOpen
                  (checkTransactionIdentity input.adapter
                  (some identity) unit.id "atomic" "No success row was written.") :=
                Obeys.checkTransactionIdentity (fun _ h => h) identity _ _ _
              have hkept := wp_lift (A := tame input.adapter mine owner) (J := fun s => Blank owner s.db)
                (hcheck l₂ l₂.latch (Later.refl _) ht₂.isOpen) hs₂.blank fun q o s' hq _ hs' => by
                  rw [txn_db hq]
                  exact hs'
              have hboth := wp_and hkept
                (wp_checkTransactionIdentity identity unit.id "atomic" "No success row was written." l₂ s₂)
              apply (wp_bind _ _).2
              apply wp_mono (wp_weaken hboth (fun _ _ _ h => h) fun _ _ h => Blank.once h.1.2)
              rintro r l₃ s₃ ⟨⟨-, hblank⟩, hsame⟩
              cases r with
              | error e => exact hfailed hblank
              | ok u =>
                  obtain ⟨rfl, -⟩ := hsame rfl
                  exact wp_insert_landing ho hk hs₂

omit hm ho in
/-- The commit carries the row and the work together, or neither. -/
theorem wp_land {b : Boundary} {id : Option String} (h : Landing mine owner s) :
    wp (serve input.adapter) (tame input.adapter mine owner) (fun _ s => Once (sofar mine s) owner s)
    (durableCommit input.adapter b id)
      (fun r _ s' => Once (sofar mine s') owner s' ∧ (r = .ok () → Between mine owner s')) l s := by
  obtain ⟨t, r, ht, ha, hrows, hsucc, hwork⟩ := h.txn
  have hcommit :
      Obeys input.adapter (fun op => txnOp op = true ∨ op = .commit b) any (durableCommit input.adapter b id) :=
    Obeys.durableCommit (fun _ h => .inl h) (.inr rfl)
  have htouches :=
    wp_lift (A := tame input.adapter mine owner) (J := Touches s) (hcommit l l.latch (Later.refl _) trivial)
    (Touches.refl s) fun q o s' hq _ hs' => by
      apply hs'.trans
      apply touches_serve
      obtain ⟨op, l⟩ := q
      rcases hq with hq | rfl
      · cases op <;> first | rfl | cases hq
      · rfl
  have hdb : wp (serve input.adapter) (tame input.adapter mine owner) (fun _ s => Once (sofar mine s) owner s)
      (durableCommit input.adapter b id) _ l s := wp_durableCommit ht ha (Blank.once h.blank) (Blank.once h.blank)
  apply wp_mono (wp_weaken (wp_and htouches hdb) (fun _ _ _ h => h) fun _ _ h => h.2)
  rintro res l' s' ⟨⟨-, htouch⟩, hd⟩
  have hlanded (he : s'.db = t.working) : Once (sofar mine s') owner s' := by
    refine .inr ⟨r, s'.invocation, ?_, hsucc, ⟨⟨?_, Set.mem_Iic.2 le_rfl⟩, fun j hj => hj.2⟩, ?_⟩
    · rw [he]
      exact hrows
    · rw [htouch.invocation]
      exact h.current
    · rw [he, htouch.performed, htouch.invocation]
      exact hwork
  cases res with
  | error e =>
      refine ⟨?_, fun h => by cases h⟩
      rcases hd with hd | ⟨-, hd⟩
      · exact Blank.once (by rw [hd]; exact h.blank)
      · exact hlanded hd
  | ok u =>
      subst hd
      refine ⟨hlanded rfl, fun _ => ⟨_, _, _, hlanded rfl, Holds.of_none rfl rfl, Holds.of_none rfl rfl, rfl, h.past⟩⟩

theorem wp_runAtomic_once (hs : Apart owner [] [] P s) :
    wp (serve input.adapter) (tame input.adapter mine owner) (fun _ s => Once (sofar mine s) owner s)
    (runAtomic input unit)
      (fun r _ s' => Once (sofar mine s') owner s' ∧ (r = .ok () → Between mine owner s')) l s := by
  have hfailed {e : Exc} {s : Session} (h : Once (sofar mine s) owner s) :
      Once (sofar mine s) owner s ∧ ((.error e : Except Exc Unit) = .ok () → Between mine owner s) :=
    ⟨h, fun h => by cases h⟩
  have honce {s : Session} (h : Apart owner [] [] P s) : Once (sofar mine s) owner s := Apart.once h (.inl ⟨rfl, rfl⟩)
  have hforeign (op : Op) (h : txnOp op = true) : Foreign owner op := by
    cases op <;> trivial
  have hbegin : Obeys input.adapter (fun op => txnOp op = true) any (begin input.adapter) := Obeys.begin fun _ h => h
  have hkept := wp_lift (A := tame input.adapter mine owner) (J := Apart owner [] [] P)
    (hbegin l l.latch (Later.refl _) trivial) hs fun q o s' hq _ hs' => hs'.serve (hforeign _ hq)
  apply (wp_bind _ _).2
  apply wp_mono (wp_weaken (wp_and hkept (wp_begin l s)) (fun _ _ _ h => h) fun _ _ h => honce h.1.2)
  rintro r l₁ s₁ ⟨⟨⟨c, -, -, ht₁⟩, hs₁⟩, hfresh⟩
  cases r with
  | error e => exact hfailed (honce hs₁)
  | ok u =>
      obtain ⟨-, -, -, hfresh⟩ := hfresh rfl
      have hestablish :
          Obeys input.adapter (fun op => txnOp op = true) any (establishTransactionIdentity input.adapter) :=
        (Speaks.establishTransactionIdentity fun _ h => h).obeys
      have hkept₁ := wp_lift (A := tame input.adapter mine owner) (J := Apart owner [] [] P)
        (hestablish l₁ l₁.latch (Later.refl _) trivial) hs₁ fun q o s' hq _ hs' => hs'.serve (hforeign _ hq)
      have hopen := wp_establish (A := tame input.adapter mine owner) (l := l₁) hfresh.writable
      apply (wp_bind _ _).2
      apply wp_mono (wp_weaken (wp_and hkept₁ hopen) (fun _ _ _ h => h) fun _ _ h => honce h.1.2)
      rintro r l₂ s₂ ⟨⟨⟨c', -, -, ht₂⟩, hs₂⟩, hsome⟩
      cases r with
      | error e => exact hfailed (honce hs₂)
      | ok identity =>
          apply (wp_bind _ _).2
          apply (wp_tryCatch _ _).2
          apply wp_mono (wp_atomicBody_landing hm ho identity ht₂.isOpen hs₂ (hsome identity rfl))
          rintro r l₃ s₃ ⟨hblank, hland⟩
          cases r with
          | error e =>
              have hhandle : Obeys input.adapter (fun op => closingOp op = true) any (handleAtomic input unit e) :=
                Obeys.handleAtomic (by rfl) (by rfl) e
              have hclose := wp_lift (A := tame input.adapter mine owner) (J := fun s => Blank owner s.db)
                (hhandle l₃ l₃.latch (Later.refl _) trivial) hblank fun q o s' hq _ hs' => by
                  rw [closing_db hq]
                  exact hs'
              have hboth := wp_and hclose (wp_handleAtomic_throws e l₃ s₃)
              apply wp_mono (wp_weaken hboth (fun _ _ _ h => h) fun _ _ h => Blank.once h.1.2)
              rintro r l₄ s₄ ⟨⟨-, hblank⟩, e, rfl⟩
              exact hfailed (Blank.once hblank)
          | ok u => exact wp_land (hland rfl)

end Atomic

section Run

variable {active : Option HistoryRow} {done rest : List CapturedUnit} {rows : List HistoryRow}

theorem foreign_of_unitOp {op : Op} (ho : unit.id ≠ owner) (h : UnitOp unit op) : Foreign owner op := by
  cases op <;> try trivial
  case invoke id attempt =>
    rcases h with h | h | h
    · exact h.elim
    · exact h.elim
    · exact fun he => ho (h.symm.trans he)
  case insertHistory i =>
    rcases h with h | h | h
    · exact fun he => ho (h.symm.trans he)
    · exact h.elim
    · exact h.elim
  case updateAttempt id fingerprint language runner =>
    rcases h with h | h | h
    · exact fun he => ho (h.symm.trans he)
    · exact h.elim
    · exact h.elim
  case completeActive id toolVersion =>
    rcases h with h | h | h
    · exact fun he => ho (h.symm.trans he)
    · exact h.elim
    · exact h.elim
  case statement scope verb sql commitCapable =>
    rcases h with h | h | h
    · exact h.elim
    · exact fun he => ho (h.symm.trans he)
    · exact h.elim
  case progressSet scope key value =>
    rcases h with h | h | h
    · exact h.elim
    · exact fun he => ho (h.2.1.symm.trans he)
    · exact h.elim

theorem foreign_of_serviceOp {op : Op} (h : serviceOp op = true) : Foreign owner op := by
  cases op <;> trivial

theorem foreign_of_snapshotOp {op : Op} (h : snapshotOp op = true) : Foreign owner op := by
  cases op <;> trivial

theorem Between.serve {q : Request} (hq : Foreign owner q.op) (hn : Names mine owner q s) (h : Between mine owner s) :
    Between mine owner (World.serve adapter q o s).2 := by
  obtain ⟨X, R, P, hd, h⟩ := h
  refine ⟨X, R, P, ?_, h.serve hq⟩
  rw [sofar_serve hq hn]
  exact hd

/-- A unit that is not `owner` is nothing to it, and `owner` itself runs once. -/
theorem wp_runUnit_once (hatomic : unit.id = owner → unit.mode = .atomic)
    (hno : unit.id = owner → rowsOf owner s.db = []) (hs : Between mine owner s) :
    wp (serve input.adapter) (tame input.adapter mine owner) (fun _ s => Once (sofar mine s) owner s)
    (runUnit input active unit)
      (fun r _ s' => Once (sofar mine s') owner s' ∧ (r = .ok () → Between mine owner s')) l s := by
  by_cases ho : unit.id = owner
  · obtain ⟨X, R, P, hd, hs⟩ := hs
    have hR : R = [] := hs.rows.db.symm.trans (hno ho)
    have hX : X = [] := by
      rcases hd with ⟨-, hX⟩ | ⟨r, k, hr, -⟩
      · exact hX
      · rw [hR] at hr
        cases hr
    rw [hR, hX] at hs
    unfold runUnit
    rw [hatomic ho]
    exact wp_runAtomic_once (hatomic ho) ho hs
  · have hobeys : Obeys input.adapter (UnitOp unit) any (runUnit input active unit) := by
      unfold runUnit
      split
      · exact Obeys.runAtomic fun _ h => h
      · exact Obeys.runRestartable (fun _ h => h) _
    have hlift := wp_lift (A := tame input.adapter mine owner) (J := Between mine owner)
      (hobeys l l.latch (Later.refl _) trivial) hs fun q o s' hq ha hs' => hs'.serve (foreign_of_unitOp ho hq) ha.2
    exact wp_weaken (wp_mono hlift fun _ _ _ h => ⟨h.2.once, fun _ => h.2⟩) (fun _ _ _ h => h) fun _ _ h => h.2.once

theorem Once.touched (h : Once (sofar mine s) owner s) (ht : Touches s s') (hd : s'.db = s.db) :
    Once (sofar mine s') owner s' := by
  unfold Once sofar
  rw [hd, ht.performed, ht.invocation]
  exact h

theorem Once.closing {q : Request} (hq : closingOp q.op = true) (h : Once (sofar mine s) owner s) :
    Once (sofar mine (World.serve adapter q o s).2) owner (World.serve adapter q o s).2 := by
  obtain ⟨op, l⟩ := q
  cases op
  case log event id =>
    have hlog : (World.serve adapter ⟨.log event id, l⟩ o s).2 = s ∨
        (World.serve adapter ⟨.log event id, l⟩ o s).2 = s.note event id := log_cases
    rcases hlog with hlog | hlog <;> (rw [hlog]; exact h)
  all_goals first
    | exact h.touched (touches_serve rfl) (closing_db hq)
    | cases hq

/-- What has been done keeps the rows of `owner` away from the units to come. -/
theorem passes_once (hatomic : ∀ u ∈ input.capture.units, u.id = owner → u.mode = .atomic) :
    Passes input (tame input.adapter mine owner) (fun _ s => Once (sofar mine s) owner s) (Between mine owner)
      (fun s => Once (sofar mine s) owner s) where
  between := by
    refine ⟨fun _ _ _ _ hs => hs.once, fun op l s o hop ha hs => hs.serve ?_ ha.2, fun _ _ _ _ hs => hs⟩
    rcases hop with hop | hop | ⟨event, id, rfl⟩
    · exact foreign_of_serviceOp hop
    · exact foreign_of_snapshotOp hop
    · trivial
  closing := ⟨fun _ _ _ _ hs => hs, fun op l s o hop _ hs => Once.closing hop hs, fun _ _ _ _ hs => hs⟩
  always := fun _ hs => hs.once
  unit := by
    intro active done unit rest rows l s hframe hready hs
    have hmem : unit ∈ input.capture.units := by
      rw [hready.split]
      simp
    apply wp_runUnit_once (hatomic unit hmem) ?_ hs
    intro ho
    have hm := hatomic unit hmem ho
    apply List.filter_eq_nil_iff.2
    intro r hr hid
    rw [hframe.db.history] at hr
    have hact := hready.isActive input.capture.distinct hr ((beq_iff_eq.1 hid).trans ho.symm)
    rw [hready.no_active_of_atomic hm r hr] at hact
    cases hact

end Run

section Sequences

/-- No work is from an invocation that is still to come. -/
def Past (s : Session) : Prop := ∀ w ∈ s.performed, w.invocation ≤ s.invocation

theorem Past.touched (h : Past s) (ht : Touches s s') : Past s' := by
  unfold Past
  rw [ht.performed, ht.invocation]
  exact h

theorem Past.steps {scope : Scope} (steps : List Step) (h : Past s) : Past (s.steps adapter scope steps) := by
  obtain ⟨new, hnew, howned⟩ := performed_steps adapter scope s steps
  have hinv : (s.steps adapter scope steps).invocation = s.invocation := congrArg Prod.snd (ledger_steps steps)
  intro w hw
  rw [hnew] at hw
  rw [hinv]
  rcases List.mem_append.1 hw with hw | hw
  · exact h w hw
  · exact le_of_eq (howned w hw).2.2

theorem Past.serve {q : Request} (h : Past s) : Past (serve adapter q o s).2 := by
  have hfail (t : Session) (ht : Past t) : Past (t.fail adapter o) := ht.touched touches_fail
  obtain ⟨op, l⟩ := q
  cases op
  case log event row =>
    have hlog : (World.serve adapter ⟨.log event row, l⟩ o s).2 = s ∨
        (World.serve adapter ⟨.log event row, l⟩ o s).2 = s.note event row := log_cases
    rcases hlog with hlog | hlog
    · rw [hlog]
      exact h
    · rw [hlog]
      exact h
  case invoke => exact fun w hw => Nat.le_succ_of_le (h w hw)
  case statement scope verb sql commitCapable =>
    exact submit_keeps (J := Past) h (fun h => Past.steps _ h) (fun h => Past.steps _ h) hfail
  case progressSet scope key value =>
    refine submit_keeps (J := Past) h (fun h => ?_) (fun h => h) hfail
    unfold World.setProgress
    split
    · have hinv : (s.record adapter l.engineTransaction (s.work scope (.checkpoint key value))
          { s.visible with progress := upsert s.visible.progress ⟨scope.owner, key, value, some o.now⟩ }).invocation =
          s.invocation := congrArg Prod.snd ledger_record
      intro w hw
      rw [hinv]
      rcases List.mem_append.1 hw with hw | hw
      · exact h w hw
      · rw [List.mem_singleton.1 hw]
        exact le_rfl
    · exact h
  all_goals exact h.touched (touches_serve rfl)

theorem past_final (h : Past s) (os : List Outcome) :
    Past (final (World.serve adapter) os (Engine.run input {}) s.afresh) := by
  have hrun : Past s.afresh → Past (final (World.serve adapter) os (Engine.run input {}) s.afresh) :=
    Lib.Interaction.final_trans (T := fun (s s' : Session) => Past s → Past s') (fun _ h => h)
      (fun _ _ _ h h' hp => h' (h hp)) os fun x _ hp => Past.serve hp
  exact hrun h

theorem between_afresh (h : Once (sofar mine s) owner s) (hp : Past s) : Between mine owner s.afresh :=
  ⟨_, _, _, h, Holds.of_none rfl rfl, Holds.of_none rfl rfl, rfl, hp⟩

theorem run_once (hatomic : ∀ u ∈ input.capture.units, u.id = owner → u.mode = .atomic)
    (hs : Once (sofar mine s) owner s)
    (hp : Past s) {os : List Outcome}
    (ht : ∀ x ∈ trace (serve input.adapter) os (Engine.run input {}) s.afresh,
    Tame input.adapter owner x.request x.outcome)
    (hn : ∀ x ∈ trace (serve input.adapter) os (Engine.run input {}) s.afresh, Names mine owner x.request x.before) :
    (∀ x ∈ trace (serve input.adapter) os (Engine.run input {}) s.afresh, Once (sofar mine x.before) owner x.before) ∧
      Once (sofar mine (final (serve input.adapter) os (Engine.run input {}) s.afresh)) owner
        (final (serve input.adapter) os (Engine.run input {}) s.afresh) := by
  have hwp := (passes_once hatomic).run rfl (between_afresh hs hp)
  have hknown := fun x hx => And.intro (ht x hx) (hn x hx)
  exact ⟨(play_wp hwp os hknown).1,
    final_wp (J := fun s => Once (sofar mine s) owner s) hwp os hknown (fun _ _ h => h) fun _ _ h => h⟩

/-- Runs, each cut anywhere, of captures that have `owner` as an atomic migration if
they have it, its code being tame. They ask for `xs` in all. -/
inductive Tamely (adapter : Adapter) (owner : String) (s : Session) : List (Exchange Request Outcome Session) →
    Session → Prop
  | refl : Tamely adapter owner s [] s
  | run {s' : Session} {xs : List (Exchange Request Outcome Session)} (input : Input) (ha : input.adapter = adapter)
      (hatomic : ∀ u ∈ input.capture.units, u.id = owner → u.mode = .atomic) (os : List Outcome)
      (ht : ∀ x ∈ trace (serve adapter) os (Engine.run input {}) s'.afresh, Tame adapter owner x.request x.outcome)
      (h : Tamely adapter owner s xs s') :
      Tamely adapter owner s (xs ++ trace (serve adapter) os (Engine.run input {}) s'.afresh)
        (final (serve adapter) os (Engine.run input {}) s'.afresh)

/-- The invocations of the code of `owner` that `xs` asks for, by their numbers. -/
def invocations (owner : String) (xs : List (Exchange Request Outcome Session)) : Set Nat :=
  fun n => ∃ x ∈ xs, ∃ attempt, x.request.op = .invoke owner attempt ∧ x.before.invocation + 1 = n

variable {xs : List (Exchange Request Outcome Session)}

theorem Tamely.once (h : Tamely adapter owner s xs s') (hn : ∀ x ∈ xs, Names mine owner x.request x.before)
    (hs : Once (sofar mine s) owner s) (hp : Past s) : Once (sofar mine s') owner s' ∧ Past s' := by
  induction h with
  | refl => exact ⟨hs, hp⟩
  | run input ha hatomic os ht h ih =>
      subst ha
      obtain ⟨honce, hpast⟩ := ih fun x hx => hn x (List.mem_append_left _ hx)
      exact ⟨(run_once hatomic honce hpast ht fun x hx => hn x (List.mem_append_right _ hx)).2, past_final hpast os⟩

def Numbered (adapter : Adapter) (x y : Exchange Request Outcome Session) : Prop :=
  (serve adapter x.request x.outcome x.before).2.invocation ≤ y.before.invocation

/-- Invocations are numbered in the order they are made in. -/
theorem Tamely.numbered (h : Tamely adapter owner s xs s') :
    (∀ x ∈ xs, (serve adapter x.request x.outcome x.before).2.invocation ≤ s'.invocation) ∧
      xs.Pairwise (Numbered adapter) := by
  induction h with
  | refl => exact ⟨fun x hx => absurd hx List.not_mem_nil, List.Pairwise.nil⟩
  | @run s' xs input ha hatomic os ht h ih =>
      have hstep (q : Request) (o : Outcome) (s : Session) : s.invocation ≤ (serve adapter q o s).2.invocation := by
        rcases invocation_serve adapter q o s with he | ⟨id, attempt, -, he⟩ <;> omega
      have hrun := Lib.Interaction.trace_ordered (T := fun s s' : Session => s.invocation ≤ s'.invocation)
        (fun _ => le_rfl) (fun _ _ _ => le_trans) hstep os (Engine.run input {}) s'.afresh
      have hends : s'.invocation ≤ (final (serve adapter) os (Engine.run input {}) s'.afresh).invocation :=
        Lib.Interaction.final_trans (T := fun s s' : Session => s.invocation ≤ s'.invocation) (s := s'.afresh)
          (fun _ => le_rfl) (fun _ _ _ => le_trans) os fun x _ => hstep _ _ _
      constructor
      · intro x hx
        rcases List.mem_append.1 hx with hx | hx
        · exact (ih.1 x hx).trans hends
        · exact (hrun.1 x hx).2
      · exact List.pairwise_append.2 ⟨ih.2, hrun.2, fun x hx y hy => (ih.1 x hx).trans (hrun.1 y hy).1⟩

theorem Tamely.names (h : Tamely adapter owner s xs s') :
    ∀ x ∈ xs, Names (invocations owner xs) owner x.request x.before := by
  intro x hx id attempt hop
  have hserved {y : Exchange Request Outcome Session} {id : String} {attempt : Option Int}
      (hy : y.request.op = .invoke id attempt) :
      (serve adapter y.request y.outcome y.before).2.invocation = y.before.invocation + 1 := by
    obtain ⟨⟨op, l⟩, before, o⟩ := y
    cases hy
    rfl
  constructor
  · rintro ⟨y, hy, attempt', hop', heq⟩
    have hsame : x = y := by
      by_contra hne
      have hpairs : xs.Pairwise fun x y => Numbered adapter x y ∨ Numbered adapter y x := h.numbered.2.imp Or.inl
      have hsymm : Std.Symm fun x y => Numbered adapter x y ∨ Numbered adapter y x := ⟨fun _ _ => Or.symm⟩
      have hnumbers := hpairs.forall hx hy hne
      unfold Numbered at hnumbers
      rw [hserved hop, hserved hop'] at hnumbers
      omega
    subst hsame
    rw [hop] at hop'
    injection hop'
  · rintro rfl
    exact ⟨x, hx, attempt, hop, rfl⟩

theorem Tamely.sofar (h : Tamely adapter owner s xs s') : sofar (invocations owner xs) s' = invocations owner xs := by
  apply Set.inter_eq_left.2
  rintro n ⟨x, hx, attempt, hop, rfl⟩
  have hle := h.numbered.1 x hx
  obtain ⟨⟨op, l⟩, before, o⟩ := x
  cases hop
  exact hle

/-- However often a run with the atomic migration `owner` fails, is cut or loses the
answer to its commit: its work is there if and only if its SUCCESS row is, all that the
latest invocation of its code has written and nothing else, and its code is not invoked
once the row is there. -/
theorem exactly_once (hs : Blank owner s.db) (hp : Past s) (h : Tamely adapter owner s xs s') :
    Once (invocations owner xs) owner s' ∧ ∀ input : Input, input.adapter = adapter →
      (∀ u ∈ input.capture.units, u.id = owner → u.mode = .atomic) → ∀ os,
      (∀ x ∈ trace (serve adapter) os (Engine.run input {}) s'.afresh, Tame adapter owner x.request x.outcome) →
      ∀ x ∈ trace (serve adapter) os (Engine.run input {}) s'.afresh, ∀ attempt, x.request.op = .invoke owner attempt →
        Blank owner x.before.db := by
  constructor
  · rw [← h.sofar]
    exact (h.once h.names (Blank.once hs) hp).1
  rintro input rfl hatomic os ht x hx attempt hop
  have hnext := Tamely.run input rfl hatomic os ht h
  obtain ⟨honce, hpast⟩ := h.once (fun y hy => hnext.names y (List.mem_append_left _ hy)) (Blank.once hs) hp
  have hthere := (run_once hatomic honce hpast ht fun y hy => hnext.names y (List.mem_append_right _ hy)).1 x hx
  obtain ⟨u, hu, hid, hinvoked⟩ := (run_forward input os s' x hx).invoked owner attempt hop
  have hrows : rowsOf owner x.before.db = [] := by
    apply List.filter_eq_nil_iff.2
    intro r hr hrid
    exact hinvoked.atomic (hatomic u hu hid) r hr ((beq_iff_eq.1 hrid).trans hid.symm)
  rcases hthere with ⟨-, hwork⟩ | ⟨r, k, hr, -⟩
  · exact ⟨hrows, hwork⟩
  · rw [hrows] at hr
    cases hr

section Example

def writingRun : Input := soleRun .sqlite .atomic (.call (.execute "insert") fun _ => .ret .nothing)

def writes (n : Nat) : List Outcome := List.replicate n { now := 1, steps := [.write "row"] }

theorem writes_tame (n : Nat) (q : Request) : ∀ o ∈ writes n, Tame .sqlite "m1" q o := by
  intro o ho scope verb sql commitCapable _ _
  rw [(List.mem_replicate.1 ho).2]
  have hsteps : statementSteps .sqlite verb { now := 1, steps := [.write "row"] } = [.write "row"] := by
    unfold statementSteps
    rw [if_neg (by simp)]
  rw [hsteps]
  refine ⟨?_, fun _ => rfl⟩
  intro step hs
  rw [List.mem_singleton.1 hs]
  rfl

def died : Session := final (serve .sqlite) (writes 34) (Engine.run writingRun {}) (newNamespace .sqlite).afresh

def attempts : List (Exchange Request Outcome Session) :=
  trace (serve .sqlite) (writes 34) (Engine.run writingRun {}) (newNamespace .sqlite).afresh ++
    trace (serve .sqlite) (writes 60) (Engine.run writingRun {}) died.afresh

def repeated : Session := final (serve .sqlite) (writes 60) (Engine.run writingRun {}) died.afresh

theorem attempts_tamely : Tamely .sqlite "m1" (newNamespace .sqlite) attempts repeated := by
  have hatomic (u : CapturedUnit) (hu : u ∈ writingRun.capture.units) (_ : u.id = "m1") : u.mode = .atomic := by
    rw [List.mem_singleton.1 hu]
    rfl
  have htame {n : Nat} {s : Session} (x : Exchange Request Outcome Session)
      (hx : x ∈ trace (serve .sqlite) (writes n) (Engine.run writingRun {}) s.afresh) :
      Tame .sqlite "m1" x.request x.outcome :=
    writes_tame n x.request x.outcome (Lib.Interaction.outcome_mem hx)
  exact .run writingRun rfl hatomic (writes 60) htame (.run writingRun rfl hatomic (writes 34) htame .refl)

theorem exactly_once_repeated : died.performed.length = 1 ∧ died.db.data = [] ∧ repeated.performed.length = 2 ∧
    repeated.db.data.length = 1 ∧ Once (invocations "m1" attempts) "m1" repeated := by
  have hpast : Past (newNamespace .sqlite) := fun w hw => absurd hw List.not_mem_nil
  exact ⟨by decide +kernel, by decide +kernel, by decide +kernel, by decide +kernel,
    (exactly_once ⟨rfl, rfl⟩ hpast attempts_tamely).1⟩

end Example

end Sequences

end Migr8.ExactlyOnce
