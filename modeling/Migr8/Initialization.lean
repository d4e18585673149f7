import Migr8.Inspection
import Migr8.Planning

namespace Migr8.Initialization

open Errors Model Latch Driver Database World Adapters Metadata Engine Rules Transactions Inspection Lib.Process

variable {α β : Type} {A : Request → Session → Outcome → Prop} {I : Request → Session → Prop} {adapter : Adapter}
  {c : Config} {d d' : Db} {p : Prop} {s : Session} {l : Local} {o : Outcome} {name : ObjectName}

section Stages

def markerRow (c : Config) : MetaRow where
  layoutVersion := layoutVersion
  adapter := c.adapter.name
  lockProvider := c.lockProvider
  lockBinding := c.lockBinding
  targetNamespace := c.targetNamespace

def Db.create (d : Db) (name : ObjectName) : Db := { d with layout := d.layout.create name }

def Db.mark (d : Db) (row : MetaRow) (now : Timestamp) : Db :=
  { d with marker := [{ row with initializedAt := some now }] }

def Supported (d : Db) : Prop := ∀ name, d.layout.holder name = .supported

def Founded (d : Db) (name : ObjectName) : Prop :=
  ∀ done rest, creationOrder = done ++ name :: rest → ∀ earlier ∈ done, listed d earlier = true

/-- The durable stages of initializing `d`: each object is created where nothing
stands, after the ones before it, and the marker comes last. -/
inductive Stage (c : Config) (d : Db) : Db → Prop
  | start : Stage c d d
  | created {d' : Db} (name : ObjectName) (h : Stage c d d') (hm : d'.marker = [])
      (hv : (d'.layout.holder name).free) (hb : Founded d' name) : Stage c d (Db.create d' name)
  | marked {d' : Db} (now : Timestamp) (h : Stage c d d') (hm : d'.marker = []) (hs : Supported d') :
      Stage c d (Db.mark d' (markerRow c) now)

theorem holder_create (d : Db) (name other : ObjectName) :
    (Db.create d name).layout.holder other =
      if other = name then (d.layout.holder name).made name else d.layout.holder other := by
  cases name <;> cases other <;> rfl

theorem listed_create (other : ObjectName) :
    listed (Db.create d name) other = ((other == name) || listed d other) := by
  unfold listed
  rw [holder_create]
  by_cases h : other = name
  · rw [if_pos h, h, beq_self_eq_true, Bool.true_or]
    cases d.layout.holder name <;> rfl
  · rw [if_neg h]
    simp [h]

theorem Stage.rows (h : Stage c d d') : d'.history = d.history ∧ d'.progress = d.progress ∧ d'.data = d.data := by
  induction h with
  | start => exact ⟨rfl, rfl, rfl⟩
  | created name _ _ _ _ ih => exact ih
  | marked now _ _ _ ih => exact ih

/-- An object is there as it was, or has been created. -/
theorem Stage.holder (h : Stage c d d') (name : ObjectName) : d'.layout.holder name = d.layout.holder name ∨
    (d.layout.holder name).free ∧ d'.layout.holder name = (d.layout.holder name).made name := by
  induction h with
  | start => exact .inl rfl
  | created other _ _ hv _ ih =>
      rw [holder_create]
      by_cases he : name = other
      · subst he
        rw [if_pos rfl]
        rcases ih with h | ⟨-, h⟩
        · rw [h] at hv ⊢
          exact .inr ⟨hv, rfl⟩
        · rw [h] at hv
          cases hd : d.layout.holder name <;> rw [hd] at hv <;> cases hv
      · rw [if_neg he]
        exact ih
  | marked now _ _ _ ih => exact ih

/-- A marker of this initialization stands in a complete namespace. -/
theorem Stage.marker (h : Stage c d d') : d'.marker = d.marker ∨
    Complete d' ∧ ∃ now, d'.marker = [{ markerRow c with initializedAt := some now }] := by
  induction h with
  | start => exact .inl rfl
  | created name _ hm _ _ ih =>
      refine .inl (hm.trans ?_)
      rcases ih with h | ⟨-, now, h⟩
      · rw [← h, hm]
      · rw [hm] at h
        cases h
  | marked now _ _ hs => exact .inr ⟨⟨hs, rfl⟩, now, rfl⟩

theorem split_unique {x : α} {a b a' b' : List α} (hn : (a ++ x :: b).Nodup) (he : a ++ x :: b = a' ++ x :: b') :
    a = a' := by
  induction a generalizing a' with
  | nil =>
      cases a' with
      | nil => rfl
      | cons y ys =>
          rw [List.nil_append, List.cons_append, List.cons.injEq] at he
          rw [List.nil_append, he.2] at hn
          simp at hn
  | cons y ys ih =>
      rw [List.cons_append, List.nodup_cons] at hn
      cases a' with
      | nil =>
          rw [List.nil_append, List.cons_append, List.cons.injEq] at he
          rw [he.1] at hn
          simp at hn
      | cons z zs =>
          rw [List.cons_append, List.cons_append, List.cons.injEq] at he
          rw [he.1, ih hn.2 he.2]

theorem filter_prefix {xs : List α} {f : α → Bool}
    (h : ∀ done a rest, xs = done ++ a :: rest → f a = true → ∀ x ∈ done, f x = true) : xs.filter f <+: xs := by
  induction xs with
  | nil => exact List.prefix_rfl
  | cons x xs ih =>
      by_cases hx : f x = true
      · rw [List.filter_cons_of_pos hx, List.cons_prefix_cons]
        refine ⟨rfl, ih fun done a rest he ha y hy => ?_⟩
        exact h (x :: done) a rest (by rw [he]; rfl) ha y (List.mem_cons_of_mem _ hy)
      · have hnone : xs.filter f = [] := by
          rw [List.filter_eq_nil_iff]
          intro a ha hfa
          obtain ⟨done, rest, he⟩ := List.append_of_mem ha
          exact hx (h (x :: done) a rest (by rw [he]; rfl) hfa x List.mem_cons_self)
        rw [List.filter_cons_of_neg hx, hnone]
        exact List.nil_prefix

def InOrder (d : Db) : Prop := ∀ name, listed d name = true → Founded d name

theorem InOrder.present (h : InOrder d) : presentObjects d <+: creationOrder := by
  have he : presentObjects d = creationOrder.filter (listed d) := rfl
  rw [he]
  exact filter_prefix fun done name rest hsplit hname => h name hname done rest hsplit

theorem Founded.mono {f : Db} (h : Founded d name) (hf : ∀ other, listed d other = true → listed f other = true) :
    Founded f name :=
  fun done rest he earlier hm => hf _ (h done rest he earlier hm)

theorem Stage.inOrder (h : Stage c d d') (hd : InOrder d) : InOrder d' := by
  induction h with
  | start => exact hd
  | @created d₁ name _ _ _ hb ih =>
      have hmono (other : ObjectName) (ho : listed d₁ other = true) : listed (Db.create d₁ name) other = true := by
        rw [listed_create, ho, Bool.or_true]
      intro other ho
      rw [listed_create] at ho
      rcases Bool.or_eq_true_iff.1 ho with he | he
      · rw [beq_iff_eq.1 he]
        exact hb.mono hmono
      · exact (ih other he).mono hmono
  | marked now _ _ _ ih => exact ih

end Stages

section Steps

/-- The latch is open and no transaction of the engine is. -/
structure Poised (l : Local) : Prop where
  latch : l.latch.state = .open
  engine : l.engineTransaction = false

/-- How a part of a run may end: it returns as `Q` says, or raises with the
session as `J` says, and then, under `p`, as `E` says. -/
def Ends (p : Prop) (J : Session → Prop) (E : Exc → Local → Prop) (Q : α → Local → Session → Prop) (r : Except Exc α)
    (l : Local) (s : Session) : Prop :=
  match r with
  | .ok a => Q a l s
  | .error e => J s ∧ (p → E e l)

variable {J : Session → Prop} {E : Exc → Local → Prop} {Q Q' : α → Local → Session → Prop}

theorem Ends.bind {m : Run α} {f : α → Run β} {Q' : β → Local → Session → Prop}
    (hm : wp (serve adapter) A I m (Ends p J E Q) l s)
    (hf : ∀ a l s, Q a l s → wp (serve adapter) A I (f a) (Ends p J E Q') l s) :
    wp (serve adapter) A I (m >>= f) (Ends p J E Q') l s := by
  apply (wp_bind _ _).2
  apply wp_mono hm
  intro r l' s' h
  cases r with
  | ok a => exact hf a l' s' h
  | error e => exact h

theorem Ends.mono {m : Run α} {J' : Session → Prop} {E' : Exc → Local → Prop}
    (hm : wp (serve adapter) A I m (Ends p J E Q) l s) (hQ : ∀ a l s, Q a l s → Q' a l s) (hJ : ∀ s, J s → J' s)
    (hE : ∀ e l, E e l → E' e l) : wp (serve adapter) A I m (Ends p J' E' Q') l s := by
  apply wp_mono hm
  intro r l' s' h
  cases r with
  | ok a => exact hQ a l' s' h
  | error e => exact ⟨hJ s' h.1, fun hp => hE e l' (h.2 hp)⟩

/-- The guard does not add to what is known of the errors under `p`. -/
theorem Ends.guarded {X : Prop} {g : Guard} {m : Run α} (hl : l.latch.state = .open)
    (hm : wp (serve adapter) A I m (Ends p J (fun _ _ => X) Q) l s) :
    wp (serve adapter) A I (guarded adapter g m) (Ends p J (fun _ _ => X) Q) l s := by
  apply (wp_guarded _ _ _).2
  rw [(RunLatch.error_eq_none_iff _).2 hl]
  apply wp_mono hm
  intro r l' s' h
  cases r with
  | ok a => exact h
  | error e => exact h

theorem Got.ends {a : α} {m : Run α} (hm : wp (serve adapter) A I m (Got p a l s) l s) (hs : s.txn = none) :
    wp (serve adapter) A I m (Ends p (· = s) E fun b l' s' => b = a ∧ l' = l ∧ s' = s) l s := by
  apply wp_mono hm
  intro r l' s' h
  cases r with
  | ok b => exact h.ok b rfl
  | error e => exact ⟨h.rest hs, fun hp => absurd hp (h.error e rfl).1⟩

theorem probe_at_rest (hs : AtRest d s) (hA : Answers p A) (hI : Asks I s) :
    wp (serve adapter) A I (probeTransaction adapter) (Got p false l s) l s := by
  have hstatus (a : Adapter) :
      wp (serve a) A I (do return (← World.perform .status) != .idle) (Got p false l s) l s := by
    apply wp_perform_bind (hI _ _ (by rfl))
    · intro o status _ hr
      cases hr
      have hidle : (txnStatus s != .idle) = false := by
        rw [txnStatus, hs.idle]
        rfl
      rw [hidle]
      exact Got.pure false
    · intro o e _ hr
      cases hr
  cases adapter with
  | sqlite => exact hstatus .sqlite
  | postgres => exact hstatus .postgres
  | oracle =>
      have hread : wp (serve .oracle) A I (World.perform .readIdentity) (Got p (s.txn.bind (·.xid)) l s) l s :=
        wp_look (f := fun s => s.txn.bind (·.xid)) hA (hI .readIdentity l rfl) (fun _ => rfl) hs.aborted
      rw [hs.idle] at hread
      exact Got.then hread (Got.pure false)

theorem hasOpen_at_rest (hs : AtRest d s) (hl : l.latch.state = .open) (hA : Answers p A) (hI : Asks I s) :
    wp (serve adapter) A I (hasOpenTransaction adapter) (Got p false l s) l s :=
  Got.guarded hl (probe_at_rest hs hA hI)

structure Begun (adapter : Adapter) (l l' : Local) (s s' : Session) : Prop where
  latch : l'.latch = l.latch
  fresh : Fresh adapter s s'

/-- A transaction just begun shows what was there at rest. -/
theorem Fresh.shows {s' : Session} (h : Fresh adapter s s') (hs : AtRest d s) :
    s'.db = d ∧ s'.visible = d ∧ s'.aborted = false := by
  have hopen (h : s' = { s with txn := some { working := s.db } }) : s'.db = d ∧ s'.visible = d ∧
      s'.aborted = false := by
    rw [h]
    exact ⟨hs.db, hs.db, rfl⟩
  cases adapter with
  | sqlite => exact hopen h
  | postgres => exact hopen h
  | oracle =>
      rw [show s' = s from h]
      exact ⟨hs.db, hs.visible, hs.aborted⟩

theorem submit_openTxn {commitCapable : Bool} (hs : AtRest d s) :
    (submit adapter commitCapable o (openTxn adapter) id s).2.db = d ∧
      ((submit adapter commitCapable o (openTxn adapter) id s) = (.ok (), { s with txn := some { working := d } }) ∨
        (∃ e, (submit adapter commitCapable o (openTxn adapter) id s).1 = .error e) ∧ o.fault ≠ .answered) := by
  have hcarry : carryOut (openTxn adapter) s = (.ok (), { s with txn := some { working := d } }) := by
    rw [carryOut, hs.aborted, openTxn, hs.idle, hs.db]
    rfl
  unfold submit
  cases he : o.fault.exc with
  | none =>
      simp only [hcarry]
      exact ⟨hs.db, .inl trivial⟩
  | some e =>
      have hf : o.fault ≠ .answered := by
        intro h
        rw [h] at he
        cases he
      refine ⟨?_, .inr ⟨⟨e, rfl⟩, hf⟩⟩
      dsimp only
      by_cases hr : o.fault.rejects adapter commitCapable = true
      · rw [if_pos hr]
        exact fail_db.trans hs.db
      · rw [if_neg hr]
        by_cases ho : o.applied = true
        · rw [if_pos ho, hcarry]
          exact hs.db
        · rw [if_neg ho]
          exact fail_db.trans hs.db

theorem openTxn_ends (hs : AtRest d s) (hp : p → Answered o) : Ends p (fun s => s.db = d) E
    (fun _ l' s' => l' = l ∧ s' = { s with txn := some { working := d } })
    (submit adapter false o (openTxn adapter) id s).1 l (submit adapter false o (openTxn adapter) id s).2 := by
  obtain ⟨hdb, hok | ⟨⟨e, he⟩, hf⟩⟩ : (submit adapter false o (openTxn adapter) id s).2.db = d ∧ _ := submit_openTxn hs
  · rw [hok]
    exact ⟨rfl, rfl⟩
  · rw [he]
    exact ⟨hdb, fun h => absurd (hp h).1 hf⟩

theorem wp_openTxn (hs : AtRest d s) (hA : Answers p A) (hI : Asks I s) :
    wp (serve adapter) A I (World.perform .begin) (Ends p (fun s => s.db = d) E fun _ l' s' =>
      l' = l ∧ s' = { s with txn := some { working := d } }) l s :=
  wp_perform.2 ⟨hI _ _ rfl, fun _ ho => openTxn_ends hs fun hp => hA hp _ _ _ ho⟩

theorem doBegin_at_rest (hs : AtRest d s) (hA : Answers p A) (hI : Asks I s) :
    wp (serve adapter) A I (doBegin adapter)
      (Ends p (fun s => s.db = d) E fun _ l' s' => Begun adapter l l' s s') l s := by
  cases adapter with
  | oracle => exact ⟨rfl, rfl⟩
  | postgres =>
      apply Ends.mono (wp_openTxn hs hA hI) ?_ (fun _ h => h) fun _ _ h => h
      rintro - l' s' ⟨rfl, rfl⟩
      refine ⟨rfl, ?_⟩
      change _ = { s with txn := some { working := s.db } }
      rw [hs.db]
  | sqlite =>
      apply Ends.bind (wp_openTxn hs hA hI)
      rintro - l' s' ⟨rfl, rfl⟩
      refine ⟨rfl, ?_⟩
      change _ = { s with txn := some { working := s.db } }
      rw [hs.db]

theorem begin_at_rest (hs : AtRest d s) (hl : Poised l) (hA : Answers p A) (hI : Asks I s) :
    wp (serve adapter) A I (begin adapter) (Ends p (fun s => s.db = d) (fun _ _ => False) fun _ l' s' =>
      l'.engineTransaction = true ∧ Begun adapter l l' s s') l s := by
  apply (wp_bind _ _).2
  apply (wp_get _).2
  dsimp only
  rw [hl.engine, if_neg Bool.false_ne_true]
  apply Ends.bind (Ends.mono (Got.ends (hasOpen_at_rest hs hl.latch hA hI) hs.idle) (fun _ _ _ h => h)
    (fun _ h => by rw [h]; exact hs.db) fun _ _ h => h)
  rintro b l' s' ⟨rfl, rfl, rfl⟩
  rw [if_neg Bool.false_ne_true]
  apply Ends.bind (Ends.guarded hl.latch (doBegin_at_rest hs hA hI))
  intro _ l' s' h
  exact ⟨rfl, h.latch, h.fresh⟩

/-- A commit of an open transaction fails only where a call does. -/
theorem doCommit_answered {t : Txn} {b : Boundary} (ht : s.txn = some t) (ha : t.aborted = false)
    (hA : ∀ q s o, A q s o → Answered o) :
    wp (serve adapter) A (fun _ _ => True) (doCommit adapter b) (fun r _ _ => ∃ u, r = .ok u) l s := by
  have hok (a : Adapter) {o : Outcome} (ho : Answered o) : (serveCommit a o s).1 = .ok false := by
    rcases serveCommit_cases ht ha a o with ⟨-, h⟩ | ⟨e, he, -⟩
    · rw [h]
    · rw [ho.1] at he
      cases he
  have hstat : txnStatus s = .open := by
    rw [txnStatus, ht]
    dsimp only
    rw [ha]
    rfl
  cases adapter with
  | oracle =>
      apply wp_perform_bind trivial
      · exact fun o a _ _ => ⟨(), rfl⟩
      · intro o e ho hr
        cases (hok .oracle (hA _ _ _ ho)).symm.trans hr
  | postgres =>
      apply wp_perform_bind trivial
      · intro o status _ hr
        cases hr
        rw [hstat, if_neg (by decide)]
        apply wp_perform_bind trivial
        · intro o a ho hr
          cases (hok .postgres (hA _ _ _ ho)).symm.trans hr
          exact ⟨(), rfl⟩
        · intro o e ho hr
          cases (hok .postgres (hA _ _ _ ho)).symm.trans hr
      · intro o e _ hr
        cases hr
  | sqlite =>
      apply wp_perform_bind trivial
      · intro o status _ hr
        apply (wp_bind _ _).2
        apply wp_perform_tryCatch trivial
        · exact fun o a _ _ => ⟨(), rfl⟩
        · intro o e ho hr
          cases (hok .sqlite (hA _ _ _ ho)).symm.trans hr
      · intro o e _ hr
        cases hr

theorem commit_open {t : Txn} {b : Boundary} {id : Option String} (ht : s.txn = some t) (ha : t.aborted = false)
    (hl : l.latch.state = .open) (hA : Answers p A) (hI : Asks I s) :
    wp (serve adapter) A I (durableCommit adapter b id) (Ends p (fun s' => s'.db = s.db ∨ s'.db = t.working)
      (fun _ _ => False) fun _ l' s' => Poised l' ∧ s' = { s with db := t.working, txn := none }) l s := by
  have hcommit : wp (serve adapter) A I (doCommit adapter b)
      (Ends p (fun s' => s'.db = s.db ∨ s'.db = t.working) (fun _ _ => False)
        fun _ l' s' => l'.latch = l.latch ∧ s' = { s with db := t.working, txn := none }) l s := by
    by_cases hp : p
    · apply wp_mono (wp_weaken (wp_and (wp_doCommit ht ha (hI _ _ rfl) (hI _ _ rfl)) (doCommit_answered ht ha (hA hp)))
        (fun _ _ _ h => h) fun _ _ h => h.1)
      rintro r l' s' ⟨⟨hlatch, hr⟩, u, rfl⟩
      exact ⟨hlatch, hr⟩
    · apply wp_mono (wp_doCommit ht ha (hI _ _ rfl) (hI _ _ rfl))
      rintro r l' s' ⟨hlatch, hr⟩
      cases r with
      | ok u => exact ⟨hlatch, hr⟩
      | error e => exact ⟨hr.2.imp (fun h => h) fun h => h.2, fun h => absurd h hp⟩
  apply Ends.guarded hl
  apply Ends.bind hcommit
  rintro - l' s' ⟨hlatch, hs'⟩
  refine ⟨⟨?_, rfl⟩, hs'⟩
  change l'.latch.state = .open
  rw [hlatch]
  exact hl

theorem submit_write_answered {engine commitCapable : Bool} {f : Db → Except DriverError (α × Db)} {e : Exc}
    (ha : s.aborted = false) (ho : o.fault = .answered)
    (h : (submit adapter commitCapable o (write adapter engine f) id s).1 = .error e) :
    ∃ err, f s.visible = .error err := by
  unfold submit carryOut write at h
  rw [ho, ha] at h
  cases hf : f s.visible with
  | error err => exact ⟨err, rfl⟩
  | ok x =>
      rw [hf] at h
      cases h

theorem wp_write {op : Op} {engine commitCapable : Bool} {f : Outcome → Db → Except DriverError (Answer op × Db)}
    (hop : ∀ o, serve adapter ⟨op, l⟩ o s = submit adapter commitCapable o (write adapter engine (f o)) id s)
    (hw : Writable adapter s) (ha : s.aborted = false) (hA : Answers p A) (hI : I ⟨op, l⟩ s) :
    wp (serve adapter) A I (World.perform op) (Ends p (fun s' => s'.db = s.db)
      (fun _ _ => ∃ o err, f o s.visible = .error err) fun a l' s' => l' = l ∧ s'.db = s.db ∧
        ∃ o t, s'.txn = some t ∧ t.aborted = false ∧ f o s.visible = .ok (a, t.working)) l s := by
  apply wp_perform.2
  refine ⟨hI, fun o ho => ?_⟩
  rw [hop o]
  obtain ⟨hdb, hok⟩ : (submit adapter commitCapable o (write adapter engine (f o)) id s).2.db = s.db ∧ _ :=
    submit_write hw
  cases hr : (submit adapter commitCapable o (write adapter engine (f o)) id s).1 with
  | ok a =>
      obtain ⟨t, ht, hta, hf⟩ := hok a hr
      exact ⟨rfl, hdb, o, t, ht, hta, hf⟩
  | error e => exact ⟨hdb, fun hp => ⟨o, submit_write_answered ha (hA hp _ _ _ ho).1 hr⟩⟩

end Steps

section Create

def creating (adapter : Adapter) (name : ObjectName) (d : Db) : Except DriverError (Unit × Db) :=
  if (d.layout.holder name).free then .ok ((), Db.create d name) else .error (constraintError adapter)

theorem createObject_oracle (hs : AtRest d s) : World.createObject .oracle name s =
    if (d.layout.holder name).free then (.ok (), { s with db := Db.create d name })
    else (.error (constraintError .oracle), s) := by
  have hcommit : s.commitTxn = s := by rw [Session.commitTxn, hs.idle]
  unfold World.createObject
  rw [if_pos rfl, hcommit, hs.db]
  dsimp only
  split
  · next h =>
      split at h
      · next hv => cases h; rw [if_pos hv]; rfl
      · cases h
  · next h =>
      split at h
      · cases h
      · next hv => cases h; rw [if_neg hv]

variable {J : Session → Prop}

/-- A session that shows `d`, or has just been given the object. -/
def Made (d : Db) (name : ObjectName) (s : Session) : Prop :=
  s.db = d ∨ (d.layout.holder name).free ∧ s.db = Db.create d name

theorem wp_createOracle (hs : AtRest d s) (hl : Poised l) (hA : Answers p A) (hI : I ⟨.createObject name, l⟩ s) :
    wp (serve .oracle) A I (World.perform (.createObject name)) (Ends p (Made d name)
      (fun _ _ => ¬ (d.layout.holder name).free) fun _ l' s' =>
        (d.layout.holder name).free ∧ AtRest (Db.create d name) s' ∧ Poised l') l s := by
  apply wp_perform.2
  refine ⟨hI, fun o ho => ?_⟩
  change Ends p _ _ _ (submit .oracle true o (World.createObject .oracle name) id s).1 l
    (submit .oracle true o (World.createObject .oracle name) id s).2
  have hcarry : carryOut (World.createObject .oracle name) s = World.createObject .oracle name s := by
    rw [carryOut, hs.aborted]
    rfl
  have hfail (s' : Session) : s'.fail .oracle o = s' := by
    unfold Session.fail
    cases s'.txn <;> rfl
  unfold submit
  rw [hcarry, createObject_oracle hs]
  cases he : o.fault.exc with
  | none =>
      by_cases hv : (d.layout.holder name).free
      · rw [if_pos hv]
        exact ⟨hv, ⟨rfl, hs.idle⟩, hl⟩
      · rw [if_neg hv]
        dsimp only
        rw [hfail]
        exact ⟨.inl hs.db, fun _ => hv⟩
  | some e =>
      have hf : p → ¬ (d.layout.holder name).free := by
        intro hp
        rw [(hA hp _ _ _ ho).1] at he
        cases he
      refine ⟨?_, hf⟩
      dsimp only
      rw [hfail, hfail]
      by_cases hr : o.fault.rejects .oracle true = true
      · rw [if_pos hr]
        exact .inl hs.db
      · rw [if_neg hr]
        by_cases hap : o.applied = true
        · rw [if_pos hap]
          by_cases hv : (d.layout.holder name).free
          · rw [if_pos hv]
            exact .inr ⟨hv, rfl⟩
          · rw [if_neg hv]
            exact .inl hs.db
        · rw [if_neg hap]
          exact .inl hs.db

theorem wp_createMetadataObject (hs : AtRest d s) (hl : Poised l) (hA : Answers p A)
    (hI : ∀ s, s.db = d → Asks I s) (hc : ∀ l s, s.db = d → I ⟨.createObject name, l⟩ s) :
    wp (serve c.adapter) A I (createMetadataObject c name) (Ends p (Made d name)
      (fun _ _ => ¬ (d.layout.holder name).free) fun _ l' s' =>
        (d.layout.holder name).free ∧ AtRest (Db.create d name) s' ∧ Poised l') l s := by
  have hinTxn (a : Adapter) (ha : a ≠ .oracle) : wp (serve a) A I (do
      begin a
      World.perform (.createObject name)
      durableCommit a .metadataObjectCreated) (Ends p (Made d name) (fun _ _ => ¬ (d.layout.holder name).free)
        fun _ l' s' => (d.layout.holder name).free ∧ AtRest (Db.create d name) s' ∧ Poised l') l s := by
    apply Ends.bind (Ends.mono (begin_at_rest hs hl hA (hI s hs.db)) (fun _ _ _ h => h) (fun _ h => .inl h)
      fun _ _ h => h.elim)
    rintro - l₁ s₁ ⟨-, hbegun⟩
    have hs₁ : s₁ = { s with txn := some { working := s.db } } := by
      have hf := hbegun.fresh
      cases a
      · exact hf
      · exact hf
      · exact absurd rfl ha
    have hop (o : Outcome) : serve a ⟨.createObject name, l₁⟩ o s₁ =
        submit a true o (write a true (creating a name)) id s₁ := by
      change submit a true o (World.createObject a name) id s₁ = _
      have hrun : World.createObject a name = write a true (creating a name) := by
        funext x
        unfold World.createObject
        rw [if_neg ha]
        rfl
      rw [hrun]
    have hvis : s₁.visible = d := by rw [hs₁]; exact hs.db
    have hdb : s₁.db = d := by rw [hs₁]; exact hs.db
    apply Ends.bind
      (Ends.mono (wp_write hop hbegun.fresh.writable (by rw [hs₁]; rfl) hA (hc _ _ hdb)) (fun _ _ _ h => h)
      (fun _ h => .inl (h.trans hdb)) ?_)
    · rintro u l₂ s₂ ⟨rfl, hdb₂, o, t, ht, hta, hf⟩
      rw [hvis, creating] at hf
      by_cases hv : (d.layout.holder name).free
      · rw [if_pos hv] at hf
        have hw : t.working = Db.create d name := (congrArg Prod.snd (Except.ok.inj hf)).symm
        have hdb₂ : s₂.db = d := hdb₂.trans hdb
        have hlatch : l₂.latch.state = .open := by rw [hbegun.latch]; exact hl.latch
        apply Ends.mono (commit_open ht hta hlatch hA (hI s₂ hdb₂))
        · rintro - l₃ s₃ ⟨hl₃, rfl⟩
          exact ⟨hv, ⟨hw, rfl⟩, hl₃⟩
        · rintro s₃ (h | h)
          · exact .inl (h.trans hdb₂)
          · exact .inr ⟨hv, h.trans hw⟩
        · exact fun _ _ h => h.elim
      · rw [if_neg hv] at hf
        cases hf
    · rintro e l' ⟨o, err, hf⟩ hv
      rw [hvis, creating, if_pos hv] at hf
      cases hf
  unfold createMetadataObject
  cases hca : c.adapter with
  | sqlite => exact hinTxn .sqlite (by decide)
  | postgres => exact hinTxn .postgres (by decide)
  | oracle => exact Ends.guarded hl.latch (wp_createOracle hs hl hA (hc l s hs.db))

end Create

section Initialize

/-- Something that the dictionary queries do not list is in the way: CREATE fails on
it, or it stands before what has been created. -/
def Blocked (d : Db) : Prop := ∃ name, (∃ kind, d.layout.holder name = .foreign kind) ∨ d.layout.holder name = .trigger

/-- Nothing that is listed speaks against completing the namespace. -/
structure Unfinished (d : Db) : Prop where
  marker : d.marker = []
  clean : ¬ Finding d

/-- A namespace to complete has no rows. -/
theorem Unfinished.empty (h : Unfinished d) (hh : Housed d) : d.history = [] ∧ d.progress = [] := by
  have hhist : d.history = [] := by
    by_contra hn
    by_cases hl : listed d .history = true
    · exact h.clean (.inr (.inl ⟨hl, hn⟩))
    · exact hn (hh.history (eq_false_of_ne_true hl))
  have hprog : d.progress = [] := by
    by_contra hn
    by_cases hl : listed d .progress = true
    · exact h.clean (.inr (.inr ⟨hl, hn⟩))
    · exact hn (hh.progress (eq_false_of_ne_true hl))
  exact ⟨hhist, hprog⟩

theorem Unfinished.verdict (h : Unfinished d) :
    (inspected d).state = .absent ∨ (inspected d).state = .incompleteCompatible := by
  rcases unmarked_cases (markerFound_nil h.marker) with ⟨hf, -⟩ | ⟨-, hv⟩
  · exact absurd hf h.clean
  · exact hv

theorem Stage.altered (h : Stage c d d') (hd : ¬ Finding d) {found : Misfit}
    (ha : d'.layout.holder name = .altered found) :
    d.layout.holder name = .trigger ∧ found = behindTrigger name := by
  rcases h.holder name with he | ⟨-, he⟩
  · exact absurd (.inl ⟨name, found, he.symm.trans ha⟩) hd
  · rw [ha] at he
    cases hh : d.layout.holder name <;> rw [hh] at he <;> cases he
    exact ⟨rfl, rfl⟩

structure Allows (I : Request → Session → Prop) (c : Config) (d : Db) : Prop where
  asks : ∀ s, Stage c d s.db → Asks I s
  creates : ∀ name l s, Stage c d s.db → s.db.marker = [] → I ⟨.createObject name, l⟩ s

variable (hA : Answers p A) (hI : Allows I c d)

include hA hI

theorem wp_createMissing (names : List ObjectName) : ∀ (done : List ObjectName) (d₁ : Db) (l : Local) (s : Session),
    creationOrder = done ++ names → Stage c d d₁ → d₁.marker = [] → (∀ n ∈ done, listed d₁ n = true) →
    (∀ n ∈ names, d₁.layout.holder n = d.layout.holder n) → (∀ n found, d.layout.holder n ≠ .altered found) →
    AtRest d₁ s → Poised l →
    wp (serve c.adapter) A I (createMissing c (presentObjects d) names) (Ends p (fun s' => Stage c d s'.db)
      (fun _ _ => Blocked d) fun _ l' s' => ∃ d₂, AtRest d₂ s' ∧ Poised l' ∧ Stage c d d₂ ∧ d₂.marker = [] ∧
        ∀ n, listed d₂ n = true) l s := by
  induction names with
  | nil =>
      intro done d₁ l s hsplit hst hm hdone _ _ hs hl
      refine ⟨d₁, hs, hl, hst, hm, fun n => hdone n ?_⟩
      rw [List.append_nil] at hsplit
      rw [← hsplit]
      cases n <;> decide
  | cons name names ih =>
      intro done d₁ l s hsplit hst hm hdone hkeep hclean hs hl
      have hsplit' : creationOrder = (done ++ [name]) ++ names := by rw [hsplit, List.append_assoc]; rfl
      have hnodup : (done ++ name :: names).Nodup := by rw [← hsplit]; decide
      have hfresh : name ∉ names := by
        intro hn
        exact (List.nodup_cons.1 (List.nodup_append.1 hnodup).2.1).1 hn
      unfold createMissing
      rw [contains_present]
      by_cases hlisted : listed d name = true
      · rw [if_pos hlisted]
        refine ih (done ++ [name]) d₁ l s hsplit' hst hm ?_
          (fun n hn => hkeep n (List.mem_cons_of_mem _ hn)) hclean hs hl
        intro n hn
        rcases List.mem_append.1 hn with hn | hn
        · exact hdone n hn
        · rw [List.mem_singleton.1 hn, listed, hkeep name List.mem_cons_self]
          exact hlisted
      · rw [if_neg hlisted]
        have hfounded : Founded d₁ name := by
          intro before rest he earlier hearlier
          rw [← split_unique hnodup (hsplit.symm.trans he)] at hearlier
          exact hdone earlier hearlier
        have hmade {s' : Session} (h : Made d₁ name s') : Stage c d s'.db := by
          rcases h with h | ⟨hv, h⟩
          · rw [h]
            exact hst
          · rw [h]
            exact hst.created name hm hv hfounded
        apply Ends.bind (Ends.guarded hl.latch (Ends.mono (wp_createMetadataObject hs hl hA
          (fun s' h => hI.asks s' (by rw [h]; exact hst)) fun l' s' h => hI.creates name l' s' (by rw [h]; exact hst)
            (by rw [h]; exact hm)) (fun _ _ _ h => h) (fun _ h => hmade h) ?_))
        · rintro - l₂ s₂ ⟨hv, hs₂, hl₂⟩
          refine ih (done ++ [name]) (Db.create d₁ name) l₂ s₂ hsplit' (hst.created name hm hv hfounded) hm ?_ ?_ hclean
            hs₂ hl₂
          · intro n hn
            rw [listed_create]
            rcases List.mem_append.1 hn with hn | hn
            · rw [hdone n hn, Bool.or_true]
            · rw [List.mem_singleton.1 hn]
              simp
          · intro n hn
            rw [holder_create, if_neg (fun h => hfresh (by rw [← h]; exact hn))]
            exact hkeep n (List.mem_cons_of_mem _ hn)
        · intro _ _ hv
          rw [hkeep name List.mem_cons_self] at hv
          cases hh : d.layout.holder name with
          | vacant => exact absurd (by rw [hh]; rfl) hv
          | supported => exact absurd (by rw [listed, hh]) hlisted
          | altered found => exact absurd hh (hclean name found)
          | foreign kind => exact ⟨name, .inl ⟨kind, hh⟩⟩
          | trigger => exact ⟨name, .inr hh⟩

def Initialized (c : Config) (d d' : Db) : Prop :=
  Complete d' ∧ Stage c d d' ∧ ∃ now, d'.marker = [{ markerRow c with initializedAt := some now }]

theorem wp_initializeMetadata (hu : Unfinished d) (hs : AtRest d s) (hl : Poised l) :
    wp (serve c.adapter) A I (initializeMetadata c) (Ends p (fun s' => Stage c d s'.db) (fun _ _ => Blocked d)
      fun _ l' s' => ∃ d', AtRest d' s' ∧ Poised l' ∧ Initialized c d d') l s := by
  have hstart : Stage c d s.db := by rw [hs.db]; exact .start
  have hread {op : Op} {f : Db → Answer op} {operation phase : String} {d₁ : Db} {l₁ : Local} {s₁ : Session}
      (hs₁ : AtRest d₁ s₁) (hst : Stage c d d₁) (hl₁ : Poised l₁) (hne : decisive op = false)
      (hop : ∀ l o s, serve c.adapter ⟨op, l⟩ o s = submit c.adapter false o (read f) id s) :
      wp (serve c.adapter) A I (exec c op operation phase) (Ends p (fun s' => Stage c d s'.db) (fun _ _ => Blocked d)
        fun b l' s' => b = f d₁ ∧ l' = l₁ ∧ s' = s₁) l₁ s₁ := by
    have hdb : Stage c d s₁.db := by rw [hs₁.db]; exact hst
    exact Ends.mono (Got.ends (exec_at_rest hA hop hl₁.latch (hI.asks s₁ hdb op l₁ hne) hs₁) hs₁.idle)
      (fun _ _ _ h => h) (fun _ h => by rw [h]; exact hdb) fun _ _ h => h
  have hclean (n : ObjectName) (found : Misfit) : d.layout.holder n ≠ .altered found :=
    fun h => hu.clean (.inl ⟨n, found, h⟩)
  unfold initializeMetadata
  apply Ends.bind (hread hs .start hl rfl fun _ _ _ => rfl)
  rintro present l₁ s₁ ⟨rfl, rfl, rfl⟩
  apply Ends.bind (wp_createMissing hA hI creationOrder [] d l₁ s₁ rfl .start hu.marker
    (fun _ h => absurd h List.not_mem_nil) (fun _ _ => rfl) hclean hs hl)
  rintro - l₂ s₂ ⟨d₂, hs₂, hl₂, hst, hm, hall⟩
  apply Ends.bind (hread hs₂ hst hl₂ rfl fun _ _ _ => rfl)
  rintro present l₃ s₃ ⟨rfl, rfl, rfl⟩
  have hdb₃ : Stage c d s₃.db := by rw [hs₂.db]; exact hst
  have hchecked : ¬ Unchecked d₂ := by
    rintro ⟨n, found, ha, hfault⟩
    obtain ⟨-, rfl⟩ := hst.altered hu.clean ha
    exact hfault rfl
  have hproblems : wp (serve c.adapter) A I (definitionProblems c (presentObjects d₂) "initialization") (Ends p
      (fun s' => Stage c d s'.db) (fun _ _ => Blocked d) fun problems l' s' =>
        problems = layoutProblems (presentObjects d₂) d₂ ∧ l' = l₃ ∧ s' = s₃) l₃ s₃ := by
    apply wp_mono (wp_definitionProblems hA (hI.asks s₃ hdb₃) hl₂.latch hs₂)
    rintro r l' s' ⟨rfl, h⟩
    cases r with
    | ok problems => exact ⟨h.1, h.2.1, rfl⟩
    | error e => exact ⟨hdb₃, fun hp => absurd (h hp).1 hchecked⟩
  apply Ends.bind hproblems
  rintro problems l₄ s₄ ⟨rfl, rfl, rfl⟩
  dsimp only
  by_cases hproblems : layoutProblems (presentObjects d₂) d₂ = []
  swap
  · rw [if_pos (.inr hproblems)]
    refine ⟨hdb₃, fun _ => ?_⟩
    rw [problems_eq_nil] at hproblems
    push Not at hproblems
    obtain ⟨n, found, ha⟩ := hproblems
    exact ⟨n, .inr (hst.altered hu.clean ha).1⟩
  have hunaltered := problems_eq_nil.1 hproblems
  have hmissing : missingObjects (presentObjects d₂) = [] := missing_eq_nil.2 hall
  have hsupported : Supported d₂ := by
    intro n
    have hn := hall n
    unfold listed at hn
    cases hh : d₂.layout.holder n with
    | supported => rfl
    | altered found => exact absurd hh (hunaltered n found)
    | vacant => rw [hh] at hn; cases hn
    | foreign kind => rw [hh] at hn; cases hn
    | trigger => rw [hh] at hn; cases hn
  rw [if_neg (by rw [hmissing, hproblems]; simp)]
  have hdb₄ : Stage c d s₄.db := by rw [hs₂.db]; exact hst
  apply Ends.bind (Ends.mono (begin_at_rest hs₂ hl₂ hA (hI.asks _ hdb₄)) (fun _ _ _ h => h)
    (fun s' h => by rw [h]; exact hst) fun _ _ h => h.elim)
  rintro - l₅ s₅ ⟨-, hbegun⟩
  have hfresh := Fresh.shows hbegun.fresh hs₂
  have hdb₅ : Stage c d s₅.db := by rw [hfresh.1]; exact hst
  have hlatch : l₅.latch.state = .open := by rw [hbegun.latch]; exact hl₂.latch
  have hrow : World.insertMarker c.adapter (markerRow c) = fun now x =>
      if x.marker = [] then .ok ((), Db.mark x (markerRow c) now) else .error (constraintError c.adapter) := rfl
  apply Ends.bind (Ends.guarded hlatch (Ends.mono (wp_write (fun _ => rfl) hbegun.fresh.writable hfresh.2.2 hA
    (hI.asks s₅ hdb₅ _ _ rfl)) (fun _ _ _ h => h) (fun s' h => by rw [h]; exact hdb₅) ?_))
  · rintro u l₆ s₆ ⟨rfl, hdb₆, o, t, ht, hta, hf⟩
    change World.insertMarker c.adapter (markerRow c) o.now s₅.visible = .ok (u, t.working) at hf
    rw [hfresh.2.1, hrow] at hf
    dsimp only at hf
    rw [if_pos hm] at hf
    have hw : t.working = Db.mark d₂ (markerRow c) o.now := (congrArg Prod.snd (Except.ok.inj hf)).symm
    have hstage : Stage c d t.working := by rw [hw]; exact hst.marked o.now hm hsupported
    have hdb₇ : Stage c d s₆.db := by rw [hdb₆]; exact hdb₅
    apply Ends.mono (commit_open ht hta hlatch hA (hI.asks s₆ hdb₇))
    · rintro - l₇ s₇ ⟨hl₇, rfl⟩
      refine ⟨t.working, ⟨rfl, rfl⟩, hl₇, ?_, hstage, o.now, ?_⟩
      · rw [hw]
        exact ⟨hsupported, rfl⟩
      · rw [hw]
        rfl
    · rintro s' (h | h)
      · rw [h]
        exact hdb₇
      · rw [h]
        exact hstage
    · exact fun _ _ h => h.elim
  · rintro e l' ⟨o, err, hf⟩
    change World.insertMarker c.adapter (markerRow c) o.now s₅.visible = .error err at hf
    rw [hfresh.2.1, hrow] at hf
    dsimp only at hf
    rw [if_pos hm] at hf
    cases hf

end Initialize

end Migr8.Initialization
