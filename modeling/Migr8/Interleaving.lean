import Migr8.DurableHistory
import Migr8.Opening
import Migr8.Lib.Exclusion

namespace Migr8.Interleaving

open Errors Model Latch Driver Database World Adapters Metadata Engine Rules Discipline Obedience EngineObedience
open Teardown RunObedience Frames Opening DurableHistory Lib.Process Lib.Exclusion
open Lib.Interaction (Act echo play final)

variable {α β : Type} {ι : Type}

/-- What a namespace's server keeps for all runners, and what it records. -/
structure Shared where
  db : Db
  nextXid : Nat := 0
  invocation : Nat := 0
  performed : List Work := []
  broken : List (Nat × Option Nat) := []
  deriving DecidableEq, Repr

/-- What one runner has of its own: its open transaction, and its log. -/
structure Own where
  txn : Option Txn := none
  journal : List (String × Option String) := []
  deriving DecidableEq, Repr

def session (x : Shared × Own) : Session where
  db := x.1.db
  txn := x.2.txn
  nextXid := x.1.nextXid
  invocation := x.1.invocation
  performed := x.1.performed
  broken := x.1.broken
  journal := x.2.journal

def split (s : Session) : Shared × Own :=
  (⟨s.db, s.nextXid, s.invocation, s.performed, s.broken⟩, ⟨s.txn, s.journal⟩)

def serveRunner (adapter : Adapter) (q : Request) (o : Outcome) (x : Shared × Own) : Reply q × (Shared × Own) :=
  ((serve adapter q o (session x)).1, split (serve adapter q o (session x)).2)

/-- The lock on the namespace. A lost reply does not say whether the server has given it,
or taken it back. -/
def namespaceLock : Locking Request Reply Outcome where
  acquires q := match q.op with
    | .acquireLock => true
    | _ => false
  releases q := match q.op with
    | .releaseLock => true
    | _ => false
  grants _ o := match o.fault.exc with
    | none => o.refusal.isNone
    | some _ => o.applied
  frees _ o := o.fault.exc.isNone || o.applied
  confirms _ r := r.isOk

abbrev Runners (ι : Type) : Type := System ι Request Reply Shared Own (Except Exc Report × Local)

def starting (input : ι → Input) (d : Shared) : Runners ι where
  shared := d
  party j := ⟨Engine.run (input j) {}, {}, true⟩

theorem lock_truthful (adapter : Adapter) (q : Request) (o : Outcome) (x : Shared × Own)
    (ha : namespaceLock.acquires q = true) (hc : namespaceLock.confirms q (serveRunner adapter q o x).1 = true) :
    namespaceLock.grants q o = true := by
  obtain ⟨op, l⟩ := q
  cases op with
  | acquireLock =>
      have hserve : (serveRunner adapter ⟨.acquireLock, l⟩ o x).1 = (serveSetup o (session x)).1 := rfl
      rw [hserve] at hc
      unfold namespaceLock serveSetup at *
      dsimp only at hc ⊢
      cases hf : o.fault.exc <;> cases hr : o.refusal <;> rw [hf, hr] at hc <;> first | rfl | cases hc
  | _ => cases ha

def apartOp : Op → Bool
  | .log .. | .connect | .acquireLock | .prepareStorage | .status | .rollback | .readIdentity | .decode
      | .back .. | .ended ..
  | .closeRollback | .releaseLock | .closeConnection | .discardConnection => true
  | _ => false

theorem fail_apart (adapter : Adapter) (o : Outcome) (d d' : Shared) (v : Own) :
    split ((session (d, v)).fail adapter o) = (d, (split ((session (d', v)).fail adapter o)).2) := by
  obtain ⟨txn, journal⟩ := v
  cases txn with
  | none => rfl
  | some t =>
      cases adapter with
      | oracle => rfl
      | sqlite => cases hs : o.spoils <;> simp only [Session.fail, session, hs] <;> rfl
      | postgres => cases hs : o.spoils <;> simp only [Session.fail, session, hs] <;> rfl

theorem identity_apart (adapter : Adapter) (o : Outcome) (d d' : Shared) (v : Own) :
    let ask (d : Shared) := submit adapter false o (fun s => (.ok (s.txn.bind (·.xid)), s)) id (session (d, v))
    (ask d).1 = (ask d').1 ∧ split (ask d).2 = (d, (split (ask d').2).2) := by
  have hab : (session (d, v)).aborted = (session (d', v)).aborted := rfl
  dsimp only [submit, carryOut, id]
  rw [hab]
  cases o.fault.exc with
  | none =>
      dsimp only
      cases (session (d', v)).aborted with
      | false => exact ⟨rfl, rfl⟩
      | true => exact ⟨rfl, fail_apart adapter o d d' v⟩
  | some e =>
      dsimp only
      cases (session (d', v)).aborted with
      | false =>
          refine ⟨rfl, ?_⟩
          split
          · exact fail_apart adapter o d d' v
          · split
            · rfl
            · exact fail_apart adapter o d d' v
      | true =>
          refine ⟨rfl, ?_⟩
          split
          · exact fail_apart adapter o d d' v
          · split
            · rfl
            · exact fail_apart adapter o d d' v

theorem apart_of_op {adapter : Adapter} {q : Request} (h : apartOp q.op = true) : Apart (serveRunner adapter) q := by
  obtain ⟨op, l⟩ := q
  intro o d d' v
  unfold serveRunner
  have hback : ∀ d, (serveRollback o (session (d, v))).1 = (serveRollback o (session (d', v))).1 ∧
      split (serveRollback o (session (d, v))).2 = (d, (split (serveRollback o (session (d', v))).2).2) := by
    intro d
    unfold serveRollback
    cases o.fault.exc with
    | none => exact ⟨rfl, rfl⟩
    | some e =>
        dsimp only
        split <;> exact ⟨rfl, rfl⟩
  cases op
  case log event id =>
    simp only [serve, serveLog]
    split <;> exact ⟨rfl, rfl⟩
  case readIdentity => exact identity_apart adapter o d d' v
  case rollback => exact hback d
  case closeRollback => exact hback d
  case closeConnection => exact hback d
  case discardConnection => exact hback d
  case connect => exact ⟨rfl, rfl⟩
  case acquireLock => exact ⟨rfl, rfl⟩
  case prepareStorage => exact ⟨rfl, rfl⟩
  case status => exact ⟨rfl, rfl⟩
  case decode => exact ⟨rfl, rfl⟩
  case back => exact ⟨rfl, rfl⟩
  case ended => exact ⟨rfl, rfl⟩
  case releaseLock => exact ⟨rfl, rfl⟩
  all_goals cases h

section Discipline

variable {adapter : Adapter} {c : Config} {input : Input} {m : Run α} {f : α → Run β}

abbrev Watched (adapter : Adapter) (m : Run α) (P : Except Exc α → Local → Phase → Prop) (l : Local)
    (phase : Phase) : Prop :=
  wp (monitor namespaceLock) (fun _ _ _ => True) (Allowed namespaceLock (serveRunner adapter)) m P l phase

def Works (adapter : Adapter) (m : Run α) : Prop :=
  ∀ l, Watched adapter m (fun _ _ phase => phase = .working) l .working

def Waits (adapter : Adapter) (m : Run α) : Prop :=
  ∀ l, Watched adapter m (fun _ _ phase => phase = .waiting) l .waiting

theorem Works.pure (a : α) : Works adapter (Pure.pure a) := fun _ => rfl

theorem Works.throw (e : Exc) : Works adapter (Proc.throw e : Run α) := fun _ => rfl

theorem Works.raise (e : Migr8Error) : Works adapter (World.raise e : Run α) := fun _ => rfl

theorem Works.get (g : Local → α) : Works adapter (World.get g) := fun _ => rfl

theorem Works.modify (g : Local → Local) : Works adapter (World.modify g) := fun _ => rfl

theorem Works.perform {op : Op} (h : ∀ l, namespaceLock.releases ⟨op, l⟩ = false) :
    Works adapter (World.perform op) := by
  exact fun l => (wp_request _ _).2 ⟨trivial, fun o _ => follow_working (r := o ⟨op, l⟩) (h l)⟩

theorem Works.bind (hm : Works adapter m) (hf : ∀ a, Works adapter (f a)) : Works adapter (m >>= f) := by
  intro l
  apply (wp_bind _ _).2
  apply wp_mono (hm l)
  rintro r l' phase rfl
  cases r with
  | error e => rfl
  | ok a => exact hf a l'

theorem Works.tryCatch {h : Exc → Run α} (hm : Works adapter m) (hh : ∀ e, Works adapter (h e)) :
    Works adapter (m.tryCatch h) := by
  intro l
  apply (wp_tryCatch _ _).2
  apply wp_mono (hm l)
  rintro r l' phase rfl
  cases r with
  | error e => exact hh e l'
  | ok a => rfl

theorem Works.attempt (hm : Works adapter m) : Works adapter m.attempt := fun l => (wp_attempt m).2 (hm l)

theorem Works.ite {p : Prop} [Decidable p] {n : Run α} (hm : Works adapter m) (hn : Works adapter n) :
    Works adapter (if p then m else n) := by
  split
  · exact hm
  · exact hn

/-- What is known of a part for all replies, and that it does not ask for a release. -/
theorem watched_lift {K : Op → Prop} {P : Except Exc α → Local → RunLatch → Prop} {l : Local} {cl : RunLatch}
    (h : Safe adapter K m P l cl) (hK : ∀ op, K op → ∀ l, namespaceLock.releases ⟨op, l⟩ = false) :
    Watched adapter m (fun r l phase => (∃ c, P r l c) ∧ phase = .working) l .working := by
  have hlift :
      wp (monitor namespaceLock) (fun _ _ _ => True) (fun q phase => (∃ c, Orderly adapter K q c) ∧ phase = .working) m
      (fun r l phase => (∃ c, P r l c) ∧ phase = .working) l .working := by
    refine Lib.Interaction.wp_of_echo h rfl ?_
    rintro q cl' o _ hq - rfl
    exact follow_working (r := o q) (hK q.op hq.kind q.state)
  apply wp_weaken hlift (fun _ _ _ h => h)
  rintro q _ ⟨-, rfl⟩
  trivial

/-- What is known of a part for all replies, next to where it stands. -/
theorem Watched.safe {P : Except Exc α → Local → Phase → Prop} {P' : Except Exc α → Local → RunLatch → Prop} {l : Local}
    {phase : Phase} {cl : RunLatch} (h : Watched adapter m P l phase) (h' : Safe adapter (fun _ => True) m P' l cl) :
    Watched adapter m (fun r l phase => P r l phase ∧ ∃ c, P' r l c) l phase := by
  have hlift :
      wp (monitor namespaceLock) (fun _ _ _ => True) (fun q _ => (∃ c, Orderly adapter (fun _ => True) q c) ∧ True) m
      (fun r l _ => (∃ c, P' r l c) ∧ True) l phase :=
    Lib.Interaction.wp_of_echo h' trivial fun _ _ _ _ _ _ _ => trivial
  apply wp_mono (wp_weaken (wp_and h hlift) (fun _ _ _ h => h) fun _ _ h => h.1)
  rintro r l phase ⟨hP, hP', -⟩
  exact ⟨hP, hP'⟩

theorem apartOp_of_closingOp {op : Op} (h : closingOp op = true) : apartOp op = true := by
  cases op <;> trivial

theorem acquires_of_closingOp {q : Request} (h : closingOp q.op = true) : namespaceLock.acquires q = false := by
  obtain ⟨op, l⟩ := q
  cases op <;> trivial

/-- What ends a run is allowed at any time. -/
theorem watched_closing {P : Except Exc α → Local → RunLatch → Prop} {l : Local} {cl : RunLatch} {phase : Phase}
    (h : Safe adapter (fun op => closingOp op = true) m P l cl) : Watched adapter m (fun _ _ _ => True) l phase := by
  have hlift : wp (monitor namespaceLock) (fun _ _ _ => True)
      (fun q _ => (∃ c, Orderly adapter (fun op => closingOp op = true) q c) ∧ True) m
      (fun r l _ => (∃ c, P r l c) ∧ True) l phase :=
    Lib.Interaction.wp_of_echo h trivial fun _ _ _ _ _ _ _ => trivial
  apply wp_mono (wp_weaken hlift (fun _ _ _ h => h) _) fun _ _ _ _ => trivial
  rintro q phase ⟨⟨c, hq⟩, -⟩
  have hapart : Apart (serveRunner adapter) q := apart_of_op (apartOp_of_closingOp hq.kind)
  cases phase with
  | waiting => exact hapart
  | working => trivial
  | parting => exact ⟨hapart, acquires_of_closingOp hq.kind⟩

end Discipline

section Run

variable {adapter : Adapter} {c : Config} {input : Input} {m : Run α}

theorem Works.checkLatch : Works adapter Adapters.checkLatch := by
  apply Works.bind (.get _)
  intro e
  cases e with
  | none => exact .pure ()
  | some e => exact .raise e

theorem Works.guarded {g : Guard} (hm : Works adapter m) : Works adapter (Adapters.guarded adapter g m) := by
  apply Works.bind .checkLatch
  intro _
  apply Works.tryCatch hm
  intro e
  have hother (e : Exc) : Works adapter (if isDefinite adapter g.commitCapable e then Proc.throw e else do
      latchUnknown g adapter e
      World.raise (g.unknownOutcome adapter e) : Run α) :=
    .ite (.throw e) (.bind (.modify _) fun _ => .raise _)
  cases e with
  | migr8 e => exact .raise e
  | driver e => exact hother (.driver e)
  | commitOutcomeUnknown code => exact hother (.commitOutcomeUnknown code)
  | plain name => exact hother (.plain name)
  | interrupt => exact hother .interrupt
  | base name => exact hother (.base name)

theorem Works.begin : Works adapter (Adapters.begin adapter) := by
  have hprobe : Works adapter (probeTransaction adapter) := by
    cases adapter with
    | oracle => exact .bind (.perform fun _ => rfl) fun _ => .pure _
    | sqlite => exact .bind (.perform fun _ => rfl) fun _ => .pure _
    | postgres => exact .bind (.perform fun _ => rfl) fun _ => .pure _
  have hbegin : Works adapter (doBegin adapter) := by
    cases adapter with
    | sqlite => exact .bind (.perform fun _ => rfl) fun _ => .modify _
    | postgres => exact .perform fun _ => rfl
    | oracle => exact .pure ()
  exact .bind (.get _) fun _ => .ite (.raise _) (.bind (.guarded hprobe) fun _ => .ite (.raise _)
    (.bind (.guarded hbegin) fun _ => .modify _))

theorem Works.durableCommit (b : Boundary) (id : Option String) :
    Works adapter (Adapters.durableCommit adapter b id) := by
  have hfailed (wasOpen : Bool) (e : Exc) : Works adapter (commitFailed wasOpen e : Run Bool) := by
    unfold commitFailed
    split
    · exact .ite (.throw _) (.throw _)
    · exact .throw e
  refine .guarded (.bind ?_ fun _ => .modify _)
  cases adapter with
  | sqlite =>
      exact .bind (.perform fun _ => rfl) fun _ => .bind (.tryCatch (.perform fun _ => rfl) (hfailed _)) fun _ =>
        .modify _
  | postgres =>
      exact .bind (.perform fun _ => rfl) fun _ => .ite (.throw _) (.bind (.perform fun _ => rfl) fun _ =>
        .ite (.throw _) (.pure ()))
  | oracle => exact .bind (.perform fun _ => rfl) fun _ => .pure ()

theorem Works.exec {op : Op} {operation phase : String} {id : Option String}
    (h : ∀ l, namespaceLock.releases ⟨op, l⟩ = false) : Works c.adapter (Adapters.exec c op operation phase id) :=
  .guarded (.perform h)

theorem Works.readMeta : Works c.adapter (readMeta c) := by
  refine .bind (.exec fun _ => rfl) fun _ => .bind (.exec fun _ => rfl) fun rows => ?_
  cases rows with
  | nil => exact .pure _
  | cons row rows => exact .bind (.perform fun _ => rfl) fun _ => .pure _

theorem Works.inspectMarker (present : List ObjectName) (problems : List String) :
    Works c.adapter (inspectMarker c present problems) := by
  refine .ite (.bind (.attempt .readMeta) fun r => ?_) (.pure _)
  match r with
  | .error e => exact .ite (.pure _) (.throw _)
  | .ok (some row, rows) => exact .pure _
  | .ok (none, rows) => exact .pure _

theorem Works.countOf (table : ObjectName) {count : Run Nat} (hc : Works adapter count) (present : List ObjectName) :
    Works adapter (countOf table count present) := .ite (.bind hc fun _ => .pure _) (.pure _)

theorem Works.inspectMetadata : Works c.adapter (inspectMetadata c) :=
  .bind (.exec fun _ => rfl) fun _ => .bind (.exec fun _ => rfl) fun _ => .bind (.inspectMarker _ _) fun _ =>
    .bind (.countOf _ (.exec fun _ => rfl) _) fun _ => .bind (.countOf _ (.exec fun _ => rfl) _) fun _ => .pure _

theorem Works.createMetadataObject (name : ObjectName) : Works c.adapter (createMetadataObject c name) := by
  unfold Metadata.createMetadataObject
  split
  · next ha =>
      rw [ha]
      exact .guarded (.perform fun _ => rfl)
  · exact .bind .begin fun _ => .bind (.perform fun _ => rfl) fun _ => .durableCommit _ _

theorem Works.createMissing (present names : List ObjectName) : Works c.adapter (createMissing c present names) := by
  induction names with
  | nil => exact .pure ()
  | cons name names ih => exact .ite ih (.bind (.guarded (.createMetadataObject name)) fun _ => ih)

theorem Works.initializeMetadata : Works c.adapter (initializeMetadata c) :=
  .bind (.exec fun _ => rfl) fun _ => .bind (.createMissing _ _) fun _ => .bind (.exec fun _ => rfl) fun _ =>
    .bind (.exec fun _ => rfl) fun _ => .ite (.raise _) (.bind .begin fun _ => .bind (.exec fun _ => rfl) fun _ =>
      .durableCommit _ _)

theorem Works.liftError (x : Except Migr8Error α) : Works adapter (Engine.liftError x) := by
  cases x with
  | ok a => exact .pure a
  | error e => exact .raise e

/-- What a run does under the lock before it plans. -/
theorem Works.afterLock : Works input.adapter (do
    World.perform (.log "lock_acquired")
    let metadata ← Metadata.inspectMetadata input.config
    admitRecoveryNamespace input metadata
    prepareStorage input.adapter
    Engine.initializeIfNeeded input metadata) := by
  have hrow (report : MetadataReport) : Works input.adapter (admitRecoveryNamespace input report) := by
    unfold admitRecoveryNamespace
    split
    · exact .pure ()
    · exact .pure ()
    · exact .raise _
    · exact .raise _
  have hprepare : Works input.adapter (prepareStorage input.adapter) := by
    unfold prepareStorage
    split
    · exact .tryCatch (.perform fun _ => rfl) fun _ => .ite (.raise _) (.throw _)
    · exact .pure ()
  have hinit (report : MetadataReport) : Works input.adapter (Engine.initializeIfNeeded input report) := by
    have hcomplete : Works input.adapter (completeInitialization input) :=
      .bind .initializeMetadata fun _ => .bind .inspectMetadata fun _ => .ite (.pure _) (.raise _)
    refine .bind ?_ fun _ => .liftError _
    unfold completed
    cases report.state with
    | damaged => exact .raise _
    | absent => exact hcomplete
    | incompleteCompatible => exact hcomplete
    | complete => exact .pure _
  exact .bind (.perform fun _ => rfl) fun _ => .bind .inspectMetadata fun _ => .bind (hrow _) fun _ =>
    .bind hprepare fun _ => hinit _

end Run

section Polite

variable {adapter : Adapter} {input : Input} {m : Run α} {f : α → Run β} {l : Local}

theorem Waits.modify (g : Local → Local) : Waits adapter (World.modify g) := fun _ => rfl

theorem Waits.perform {op : Op} (h : apartOp op = true) (ha : ∀ l, namespaceLock.acquires ⟨op, l⟩ = false) :
    Waits adapter (World.perform op) := by
  refine fun l => (wp_request _ _).2 ⟨apart_of_op h, fun o _ => ?_⟩
  change follow namespaceLock ⟨op, l⟩ (o ⟨op, l⟩) .waiting = .waiting
  rw [follow, ha l]
  rfl

/-- A part that waits, and what follows it. -/
theorem Waits.next {P : Except Exc β → Local → Phase → Prop} (hm : Waits adapter m)
    (hf : ∀ a l, Watched adapter (f a) P l .waiting) (he : ∀ e l, P (.error e) l .waiting) :
    Watched adapter (m >>= f) P l .waiting := by
  apply (wp_bind _ _).2
  apply wp_mono (hm l)
  rintro r l' phase rfl
  cases r with
  | error e => exact he e l'
  | ok a => exact hf a l'

theorem Waits.preflight (units : List CapturedUnit) : Waits input.adapter (Engine.preflight input units) := by
  intro l
  obtain ⟨r, hr, -⟩ : Checked input.texts (Engine.preflight input units) := preflight_checked _
  unfold Watched Lib.Process.wp
  rw [hr l]
  exact rfl

/-- The lock is held from the reply that confirms it. -/
theorem watched_acquireLock :
    Watched adapter (acquireLock adapter) (fun r _ phase => ∀ a, r = .ok a → phase = .working) l
    .waiting := by
  apply (wp_bind _ _).2
  apply (wp_tryCatch _ _).2
  refine (wp_request _ _).2 ⟨apart_of_op rfl, fun o _ => ?_⟩
  dsimp only [monitor]
  cases o ⟨.acquireLock, l⟩ with
  | ok a => exact fun _ _ => rfl
  | error e =>
      dsimp only
      split
      · apply (wp_raise _).2
        intro a ha
        cases ha
      · apply (wp_throw _).2
        intro a ha
        cases ha

theorem watched_openNamespace : Watched input.adapter (openNamespace input)
    (fun r _ phase => ∀ a, r = .ok a → phase = .working) l .waiting := by
  have herror (e : Exc) (l : Local) (a : Unit) (h : (Except.error e : Except Exc Unit) = .ok a) :
      Phase.waiting = .working := by cases h
  have hlog (event : String) : Waits input.adapter (World.perform (.log event)) := Waits.perform rfl fun _ => rfl
  have hconnect : Waits input.adapter connect :=
    fun _ => Waits.next (Waits.perform rfl fun _ => rfl) (fun _ _ => rfl) fun _ _ => rfl
  refine Waits.next (Waits.modify _) (fun _ _ => ?_) herror
  refine Waits.next (Waits.preflight _) (fun _ _ => ?_) herror
  refine Waits.next (hlog _) (fun _ _ => ?_) herror
  refine Waits.next hconnect (fun _ _ => ?_) herror
  refine Waits.next (Waits.modify _) (fun _ _ => ?_) herror
  refine Waits.next (hlog _) (fun _ _ => ?_) herror
  apply (wp_bind _ _).2
  apply wp_mono watched_acquireLock
  intro r l' phase hr
  cases r with
  | error e =>
      intro a ha
      cases ha
  | ok a =>
      rw [hr a rfl]
      exact wp_mono (Works.afterLock l') fun _ _ _ h _ _ => h

/-- A latch that is set has been told of. -/
abbrev Heard (r : Except Exc α) (l : Local) : Prop := ∃ c, Later c l.latch ∧ Told r l.latch

theorem keeps_of_snapshotOp {op : Op} (h : snapshotOp op = true) : ∀ l, namespaceLock.releases ⟨op, l⟩ = false := by
  intro l
  cases op <;> trivial

theorem keeps_of_unitOp {unit : CapturedUnit} {op : Op} (h : UnitOp unit op) :
    ∀ l, namespaceLock.releases ⟨op, l⟩ = false := by
  intro l
  cases op
  case releaseLock => rcases h with h | h | h <;> cases h
  all_goals rfl

theorem watched_migrate {c : RunLatch} (hc : Later c l.latch) (hl : l.latch.state = .open) :
    Watched input.adapter (Engine.migrate input) (fun r l _ => Heard r l) l .waiting := by
  let K (op : Op) : Prop := ∀ l, namespaceLock.releases ⟨op, l⟩ = false
  have hrest : Obeys input.adapter K isOpen (do
      let plan ← buildPlan input
      World.perform (.log "plan")
      Engine.execute input plan.active plan.pending) := by
    apply Obeys.weaken (Obeys.bind (Obeys.buildPlan fun op h => keeps_of_snapshotOp h) fun plan => ?_)
      fun _ _ => trivial
    exact Obeys.bind_steady (Steady.perform_open fun _ => rfl) fun _ =>
      Obeys.execute _ _ (fun unit _ op h => keeps_of_unitOp h) fun _ _ _ => rfl
  apply (wp_bind _ _).2
  apply wp_mono (watched_openNamespace.safe (Safe.openNamespace (fun _ _ => trivial) l c hc hl))
  rintro r l' phase ⟨hphase, c', hc', ht, -⟩
  cases r with
  | error e => exact ⟨c', hc', fun _ => ⟨e, rfl⟩⟩
  | ok u =>
      rw [hphase u rfl]
      apply wp_mono (watched_lift (hrest l' c' hc' ht.isOpen) fun _ h => h)
      rintro r' l'' phase' ⟨⟨c'', hc'', -, ht'⟩, -⟩
      exact ⟨c'', hc'', ht'⟩

theorem run_polite (input : Input) :
    Polite namespaceLock (serveRunner input.adapter) .waiting (Engine.run input {}) := by
  have hrun : Watched input.adapter (Engine.run input) (fun _ _ _ => True) {} .waiting := by
    refine wp_run.2 (wp_perform.2 ⟨apart_of_op rfl, fun o _ => ?_⟩)
    dsimp only [monitor]
    cases o ⟨.log "run_start", {}⟩ with
    | error e => exact watched_closing (Safe.settling_throw (fun _ h => h) (Later.refl _) rfl rfl)
    | ok a =>
        apply wp_mono (watched_migrate (Later.refl _) rfl)
        rintro r l phase ⟨c, hc, ht⟩
        exact watched_closing (Safe.settling_conclude (fun _ h => h) hc ht)
  exact hrun

end Polite

section Systems

variable {adapter : Adapter} {input : ι → Input} {d d' : Shared} {y z : Runners ι} {i : ι}

theorem starting_polite (ha : ∀ j, (input j).adapter = adapter) :
    Starting namespaceLock (serveRunner adapter) (fun j => Engine.run (input j) {}) {} (starting input d) := by
  refine ⟨fun _ => rfl, fun j => ?_⟩
  have hj := run_polite (input j)
  rw [ha j] at hj
  exact hj

theorem play_session (os : List Outcome) (t : Act Request Reply α) (x : Shared × Own) :
    (play (serve adapter) os t (session x)).2 =
      ((play (serveRunner adapter) os t x).2.1, session (play (serveRunner adapter) os t x).2.2) :=
  play_view (fun _ _ _ => rfl) os t x

theorem Serial.sequence (ha : ∀ j, (input j).adapter = adapter)
    (h : Serial (serveRunner adapter) (fun j => Engine.run (input j) {}) {} d d') :
    ∃ s, Sequence adapter (session (d, {})) s ∧ (split s).1 = d' := by
  induction h with
  | refl => exact ⟨_, .refl, rfl⟩
  | @run d' j os _ ih =>
      obtain ⟨s, hs, rfl⟩ := ih
      refine ⟨_, .run (input j) (ha j) os hs, ?_⟩
      have hplay : play (serve adapter) os (Engine.run (input j) {}) s.afresh =
          play (serve adapter) os (Engine.run (input j) {}) (session ((split s).1, {})) := rfl
      unfold final
      rw [hplay, play_session]
      rfl

variable [DecidableEq ι]

/-- Whatever the order of the runners' steps, the one that is about to touch what all of
them share holds the lock, and moves the history forward as it stands now. -/
theorem exclusive_forward (ha : ∀ j, (input j).adapter = adapter)
    (hr : Reachable namespaceLock (serveRunner adapter) (starting input d) y) {q : Request}
    {next : Reply q → Act Request Reply (Except Exc Report × Local)} (halive : (y.party i).alive = true)
    (hp : (y.party i).program = .ask q next) (hq : ¬ Apart (serveRunner adapter) q) :
    y.holder = some i ∧ ∀ o, MovesForward (input i) ⟨q, session (y.shared, (y.party i).own), o⟩ := by
  obtain ⟨hheld, d', os, -, hplay⟩ := exclusive (lock_truthful adapter) (starting_polite ha) hr halive hp hq
  refine ⟨hheld, fun o => ?_⟩
  have hsession : (play (serve adapter) os (Engine.run (input i) {}) (session (d', {}))).2 =
      (.ask q next, session (y.shared, (y.party i).own)) := by
    rw [play_session, hplay]
  have hforward := run_forward (input i) (os ++ [o]) (session (d', {}))
  rw [ha i] at hforward
  exact hforward _ (mem_trace_snoc hsession rfl o)

theorem invoke_not_apart (adapter : Adapter) (id : String) (attempt : Option Int) (l : Local) :
    ¬ Apart (serveRunner adapter) ⟨.invoke id attempt, l⟩ := by
  intro h
  have hcount := congrArg (fun x => x.1.invocation) (h {} { db := {} } { db := {} } {}).2
  cases hcount

theorem step_persists (ha : ∀ j, (input j).adapter = adapter)
    (hr : Reachable namespaceLock (serveRunner adapter) (starting input d) y)
    (hs : Step namespaceLock (serveRunner adapter) y z) : Persists y.shared.db.history z.shared.db.history := by
  cases hs with
  | @served j q next o halive hp hfree =>
      by_cases hq : Apart (serveRunner adapter) q
      · have hsame := congrArg Prod.fst (hq o y.shared y.shared (y.party j).own).2
        dsimp only
        rw [hsame]
        exact .refl _
      · have hmove := (exclusive_forward ha hr halive hp hq).2 o
        have hsteps := hmove.steps
        rw [ha j] at hsteps
        exact .of_steps hsteps
  | unserved => exact .refl _
  | ended => exact .refl _

/-- However the steps of any number of runs interleave, what they leave is what the
same runs leave one after the other, each cut somewhere. -/
theorem interleaving_serializes (ha : ∀ j, (input j).adapter = adapter)
    (hr : Reachable namespaceLock (serveRunner adapter) (starting input d) y) :
    Serial (serveRunner adapter) (fun j => Engine.run (input j) {}) {} d y.shared ∧
      (∃ s, Sequence adapter (session (d, {})) s ∧ (split s).1 = y.shared) ∧
      (Initialized d.db → Accepted y.shared.db) ∧
      ∀ z, Reachable namespaceLock (serveRunner adapter) y z → Persists y.shared.db.history z.shared.db.history := by
  have hserial := serializable (lock_truthful adapter) (starting_polite ha) hr
  obtain ⟨s, hs, he⟩ := Serial.sequence ha hserial
  refine ⟨hserial, ⟨s, hs, he⟩, fun hinit => ?_, fun z hz => ?_⟩
  · have hdb : s.db = y.shared.db := congrArg Shared.db he
    rw [← hdb]
    exact durable_history_accepted hinit hs
  · induction hz with
    | refl => exact .refl _
    | tail hz hs ih => exact ih.trans (step_persists ha (hr.trans hz) hs)

section Example

def bothRuns : Bool → Input := fun _ => soleRun .sqlite .atomic (.ret .nothing)

theorem bothRuns_adapter (j : Bool) : (bothRuns j).adapter = .sqlite := rfl

/-- One runner comes up to the lock, the other takes it and runs to the end, and then
the first goes on. -/
def tookTurns : Runners Bool :=
  schedule namespaceLock (serveRunner .sqlite)
    (List.replicate 4 (false, { now := 1 }) ++ List.replicate 40 (true, { now := 2 }) ++
      List.replicate 40 (false, { now := 3 }))
    (starting bothRuns (split (newNamespace .sqlite)).1)

theorem interleaving_serializes_tookTurns : Accepted tookTurns.shared.db ∧ tookTurns.shared.performed = [] ∧
    tookTurns.shared.invocation = 1 ∧ tookTurns.shared.db.history.map (·.startedAt) = [some 2] := by
  have hreach : Reachable namespaceLock (serveRunner .sqlite) (starting bothRuns (split (newNamespace .sqlite)).1)
      tookTurns := reachable_schedule _
  have h := interleaving_serializes bothRuns_adapter hreach
  refine ⟨h.2.2.1 (newNamespace_initialized .sqlite), ?_⟩
  decide +kernel

def inMidrun : Runners Bool :=
  schedule namespaceLock (serveRunner .sqlite)
    (List.replicate 4 (false, { now := 1 }) ++ List.replicate 29 (true, { now := 2 }))
    (starting bothRuns (split (newNamespace .sqlite)).1)

def asksInvoke : Act Request Reply α → Bool
  | .ask ⟨.invoke .., _⟩ _ => true
  | _ => false

theorem asksInvoke_iff {t : Act Request Reply α} (h : asksInvoke t = true) :
    ∃ id attempt l next, t = .ask ⟨.invoke id attempt, l⟩ next := by
  cases t with
  | done a => cases h
  | ask q next =>
      obtain ⟨op, l⟩ := q
      cases op
      case invoke id attempt => exact ⟨id, attempt, l, next, rfl⟩
      all_goals cases h

theorem exclusive_forward_inMidrun : ∃ id attempt l next,
    (inMidrun.party true).program = .ask ⟨.invoke id attempt, l⟩ next ∧ inMidrun.holder = some true ∧
      ∀ o, MovesForward
      (bothRuns true) ⟨⟨.invoke id attempt, l⟩, session (inMidrun.shared, (inMidrun.party true).own), o⟩ := by
  have hreach : Reachable namespaceLock (serveRunner .sqlite) (starting bothRuns (split (newNamespace .sqlite)).1)
      inMidrun := reachable_schedule _
  have hasks : asksInvoke (inMidrun.party true).program = true := by decide +kernel
  have halive : (inMidrun.party true).alive = true := by decide +kernel
  obtain ⟨id, attempt, l, next, hp⟩ := asksInvoke_iff hasks
  exact ⟨id, attempt, l, next, hp,
    exclusive_forward bothRuns_adapter hreach halive hp (invoke_not_apart .sqlite id attempt l)⟩

end Example

end Systems

end Migr8.Interleaving
