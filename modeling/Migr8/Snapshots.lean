import Migr8.Opening

namespace Migr8.Snapshots

open Errors Model Latch Driver Database World Adapters Metadata Engine StateValidate Rules Sessions Transactions
open Inspection Initialization Opening Lib.Process

variable {α β : Type} {A : Request → Session → Outcome → Prop} {I : Request → Session → Prop} {input : Input}
  {adapter : Adapter} {c : Config} {d : Db} {p : Prop} {s : Session} {l : Local} {o : Outcome}

section Read

/-- A session in a transaction that has done nothing but read `d`. -/
def Reading (d : Db) (s : Session) : Prop := s.db = d ∧ s.txn = some { working := d }

theorem Reading.visible (h : Reading d s) : s.visible = d := by
  rw [Session.visible, h.2]

theorem Reading.aborted (h : Reading d s) : s.aborted = false := by
  rw [Session.aborted, h.2]

theorem Reading.holds (h : Reading d s) : Holds (fun x => x = d) s := by
  refine ⟨h.1, fun t ht => ?_⟩
  rw [h.2] at ht
  cases ht
  rfl

/-- What the reader of the history returns when all its reads are answered. -/
def stored (d : Db) : Snapshot := (storedSnapshot d).1

def Readable (d : Db) : Prop := ∀ name, d.isTable name = true

theorem Readable.all (h : Readable d) (tables : List ObjectName) : tables.all d.isTable = true :=
  List.all_eq_true.2 fun name _ => h name

theorem wp_readRowsSqlite (hA : Answers p A) (hI : Asks I s) (hd : Readable s.visible) (ha : s.aborted = false)
    (hl : l.latch.state = .open) :
    wp (serve c.adapter) A I (readRowsSqlite c) (Got p (stored s.visible) l s) l s := by
  apply Got.then (wp_rows (f := fun d => sortBySeq d.history) hA (hI .readHistory l rfl) (fun _ => rfl) (hd.all _) ha)
  apply Got.then (wp_decode hA (hI _ _ rfl))
  apply Got.then (wp_rows (f := fun d => sortedProgress d) hA (hI .readProgress l rfl) (fun _ => rfl) (hd.all _) ha)
  apply Got.then (wp_decode hA (hI _ _ rfl))
  apply Got.then (wp_readMeta hA hI (hd _) hl ha)
  exact Got.pure _

theorem wp_readRowsPostgres (hA : Answers p A) (hI : Asks I s) (hd : Readable s.visible) (ha : s.aborted = false)
    (hl : l.latch.state = .open) :
    wp (serve c.adapter) A I (readRowsPostgres c) (Got p (stored s.visible) l s) l s := by
  apply Got.then (wp_exec_rows (f := fun d => sortBySeq d.history) hA (fun _ _ _ => rfl) (hd.all _) hl
    (hI .readHistory l rfl) ha)
  apply Got.then (wp_decode hA (hI _ _ rfl))
  apply Got.then (wp_exec_rows (f := fun d => sortedProgress d) hA (fun _ _ _ => rfl) (hd.all _) hl
    (hI .readProgress l rfl) ha)
  apply Got.then (wp_decode hA (hI _ _ rfl))
  apply Got.then (wp_readMeta hA hI (hd _) hl ha)
  exact Got.pure _

variable {J : Session → Prop} {E : Exc → Local → Prop}

/-- The end of the reading transaction changes nothing. -/
theorem serveCommit_reading (hs : Reading d s) (hp : p → Answered o) :
    Holds (fun x => x = d) (World.serveCommit adapter o s).2 ∧
      ((∃ b, (World.serveCommit adapter o s).1 = .ok b ∧ AtRest d (World.serveCommit adapter o s).2) ∨
        (∃ e, (World.serveCommit adapter o s).1 = .error e) ∧ ¬ p) := by
  refine ⟨hs.holds.serveCommit, ?_⟩
  rcases serveCommit_cases hs.2 rfl adapter o with ⟨-, h⟩ | ⟨e, he, h, -⟩
  · rw [h]
    exact .inl ⟨false, rfl, rfl, rfl⟩
  · refine .inr ⟨⟨e, h⟩, fun h => ?_⟩
    rw [(hp h).1] at he
    cases he

theorem wp_snapshotBegin (hs : AtRest d s) (hA : Answers p A) (hI : Asks I s) :
    wp (serve adapter) A I (World.perform .snapshotBegin) (Ends p (fun s => s.db = d) E fun _ l' s' =>
      l' = l ∧ Reading d s') l s := by
  apply Ends.mono (Q := fun _ l' s' => l' = l ∧ s' = { s with txn := some { working := d } }) ?_ ?_
    (fun _ h => h) fun _ _ h => h
  · exact wp_perform.2 ⟨hI _ _ rfl, fun _ ho => openTxn_ends hs fun hp => hA hp _ _ _ ho⟩
  · rintro - l' s' ⟨hl, rfl⟩
    exact ⟨hl, hs.db, rfl⟩

theorem status_idle (hs : AtRest d s) : (txnStatus s == .idle) = true := by
  rw [txnStatus, hs.idle]
  rfl

/-- A failed read leaves a session that still shows `d`. -/
theorem failed_read {a : α} {e : Exc} {l' : Local} {s' : Session} (h : Got p a l s (.error e) l' s')
    (hs : Reading d s) : Holds (fun x => x = d) s' ∧ ¬ p :=
  ⟨h.held _ hs.holds, (h.error e rfl).1⟩

variable (hI : ∀ s, s.db = d → Asks I s)

include hI

/-- Whatever the commit of a reading transaction comes to, nothing has changed. -/
theorem wp_lastCommit (hs : Holds (fun x => x = d) s) :
    wp (serve adapter) A I (World.perform .snapshotCommit) (fun _ _ s' => s'.db = d) l s := by
  apply wp_perform.2
  have hend (o) : Holds (fun x => x = d) (World.serveCommit adapter o s).2 := hs.serveCommit
  exact ⟨hI s hs.db _ _ rfl, fun o _ => (hend o).db⟩

variable (hA : Answers p A)

include hA

theorem wp_snapshotCommit (hs : Reading d s) :
    wp (serve adapter) A I (World.perform .snapshotCommit) (Ends p (fun s => s.db = d) E fun _ l' s' =>
      l' = l ∧ AtRest d s') l s := by
  apply wp_perform.2
  refine ⟨hI s hs.1 _ _ rfl, fun o ho => ?_⟩
  obtain ⟨hheld, ⟨b, hb, hrest⟩ | ⟨⟨e, he⟩, hp⟩⟩ : Holds _ (World.serveCommit adapter o s).2 ∧ _ :=
    serveCommit_reading hs fun hp => hA hp _ _ _ ho
  · change Ends p _ _ _ (World.serveCommit adapter o s).1 l (World.serveCommit adapter o s).2
    rw [hb]
    exact ⟨rfl, hrest⟩
  · change Ends p _ _ _ (World.serveCommit adapter o s).1 l (World.serveCommit adapter o s).2
    rw [he]
    exact ⟨hheld.db, fun h => absurd h hp⟩

theorem wp_readSnapshotSqlite (hs : AtRest d s) (hl : Poised l) (hd : Readable d) :
    wp (serve c.adapter) A I (readSnapshotSqlite c) (Ends p (fun s => s.db = d) E fun snapshot l' s' =>
      snapshot = stored d ∧ AtRest d s' ∧ Poised l') l s := by
  apply wp_perform_bind (hI s hs.db _ _ rfl)
  · intro o status _ hr
    cases hr
    rw [status_idle hs]
    have hbegin : wp (serve c.adapter) A I (do
        World.perform .snapshotBegin
        advanceEpoch) (Ends p (fun s => s.db = d) E fun _ l' s' => Poised l' ∧ Reading d s') l s := by
      apply Ends.bind (wp_snapshotBegin hs hA (hI s hs.db))
      rintro - l₁ s₁ ⟨rfl, hs₁⟩
      exact ⟨⟨hl.latch, hl.engine⟩, hs₁⟩
    apply Ends.bind hbegin
    rintro - l₁ s₁ ⟨hl₁, hs₁⟩
    have hrows := wp_readRowsSqlite (c := c) hA (hI s₁ hs₁.1) (by rw [hs₁.visible]; exact hd) hs₁.aborted hl₁.latch
    rw [hs₁.visible] at hrows
    apply (wp_finally _ _).2
    apply wp_mono hrows
    intro r l₂ s₂ hg
    apply (wp_bind _ _).2
    cases r with
    | ok snapshot =>
        obtain ⟨rfl, rfl, rfl⟩ := hg.ok snapshot rfl
        apply wp_mono (wp_snapshotCommit (E := E) hI hA hs₁)
        intro r l₃ s₃ h
        cases r with
        | error e => exact h
        | ok b =>
            obtain ⟨rfl, hs₃⟩ := h
            exact ⟨rfl, hs₃, hl₁.latch, hl₁.engine⟩
    | error e =>
        obtain ⟨hheld, hp⟩ := failed_read hg hs₁
        apply wp_mono (wp_lastCommit hI hheld)
        intro r l₃ s₃ h
        cases r with
        | error e' => exact ⟨h, fun h => absurd h hp⟩
        | ok b => exact ⟨h, fun h => absurd h hp⟩
  · intro o e _ hr
    cases hr

theorem wp_readSnapshotPostgres (hs : AtRest d s) (hl : Poised l) (hd : Readable d) :
    wp (serve c.adapter) A I (readSnapshotPostgres c) (Ends p (fun s => s.db = d) E fun snapshot l' s' =>
      snapshot = stored d ∧ AtRest d s' ∧ Poised l') l s := by
  apply wp_perform_bind (hI s hs.db _ _ rfl)
  · intro o status _ hr
    cases hr
    rw [status_idle hs]
    apply Ends.bind (wp_snapshotBegin hs hA (hI s hs.db))
    rintro - l₁ s₁ ⟨rfl, hs₁⟩
    have hrows := wp_readRowsPostgres (c := c) hA (hI s₁ hs₁.1) (by rw [hs₁.visible]; exact hd) hs₁.aborted hl.latch
    rw [hs₁.visible] at hrows
    apply (wp_bind _ _).2
    apply (wp_tryCatch _ _).2
    apply wp_mono hrows
    intro r l₂ s₂ hg
    cases r with
    | ok snapshot =>
        obtain ⟨rfl, rfl, rfl⟩ := hg.ok snapshot rfl
        apply Ends.bind (Q := fun _ l' s' => l' = l₂ ∧ AtRest d s')
        · apply Ends.bind (wp_snapshotCommit hI hA hs₁)
          intro _ l' s' h
          exact h
        · rintro - l₃ s₃ ⟨rfl, hs₃⟩
          exact ⟨rfl, hs₃, hl⟩
    | error e =>
        obtain ⟨hheld, hp⟩ := failed_read hg hs₁
        have hend (b : Bool) :
            wp (serve c.adapter) A I (onlyIf b endSnapshotPostgres >>= fun _ => (Proc.throw e : Run Snapshot))
            (fun r _ s' => s'.db = d ∧ ∃ e', r = .error e') l₂ s₂ := by
          apply (wp_bind _ _).2
          cases b with
          | false => exact ⟨hheld.db, e, rfl⟩
          | true =>
              apply (wp_bind _ _).2
              apply wp_mono (wp_lastCommit hI hheld)
              intro r l₃ s₃ h
              cases r with
              | error e' => exact ⟨h, e', rfl⟩
              | ok b => exact ⟨h, e, rfl⟩
        apply (wp_bind _ _).2
        apply (wp_get _).2
        apply wp_mono (hend _)
        rintro r l₃ s₃ ⟨h, e', rfl⟩
        exact ⟨h, fun h => absurd h hp⟩
  · intro o e _ hr
    cases hr

theorem wp_readSnapshotOracle (hs : AtRest d s) (hl : Poised l) (hd : Readable d) (hm : d.marker.length ≤ 1) :
    wp (serve c.adapter) A I readSnapshotOracle (Ends p (fun s => s.db = d) E fun snapshot l' s' =>
      snapshot = stored d ∧ AtRest d s' ∧ Poised l') l s := by
  have hsame {s' : Session} (h : s' = s) : s'.db = d := by rw [h]; exact hs.db
  have hread : wp (serve c.adapter) A I (World.perform .readSnapshot) (Got p (storedSnapshot d) l s) l s := by
    rw [← hs.visible] at hd ⊢
    exact wp_rows (f := fun d => storedSnapshot d) hA (hI s hs.db .readSnapshot l rfl) (fun _ => rfl) (hd.all _)
      hs.aborted
  apply Ends.bind (Ends.mono (Got.ends hread hs.idle) (fun _ _ _ h => h) (fun _ h => hsame h) fun _ _ h => h)
  rintro found l₁ s₁ ⟨rfl, rfl, rfl⟩
  apply Ends.bind (Ends.mono (Got.ends (wp_decode hA (hI s₁ hs.db _ _ rfl)) hs.idle) (fun _ _ _ h => h)
    (fun _ h => hsame h) fun _ _ h => h)
  rintro - l₂ s₂ ⟨-, rfl, rfl⟩
  rw [if_neg (Nat.not_lt.2 hm)]
  exact ⟨rfl, hs, hl⟩

/-- A snapshot read that returns at all returns what is stored. -/
theorem wp_readSnapshot (hs : AtRest d s) (hl : Poised l) (hc : Complete d) :
    wp (serve c.adapter) A I (readSnapshot c) (Ends p (fun s => s.db = d) (fun _ _ => False) fun snapshot l' s' =>
      snapshot = stored d ∧ AtRest d s' ∧ Poised l') l s := by
  apply Ends.guarded hl.latch
  have hd : Readable d := hc.isTable
  have hlite := wp_readSnapshotSqlite (c := c) (E := fun _ _ => False) hI hA hs hl hd
  have hpost := wp_readSnapshotPostgres (c := c) (E := fun _ _ => False) hI hA hs hl hd
  have hora := wp_readSnapshotOracle (c := c) (E := fun _ _ => False) hI hA hs hl hd (le_of_eq hc.marker)
  cases ha : c.adapter with
  | sqlite =>
      rw [ha] at hlite
      exact hlite
  | postgres =>
      rw [ha] at hpost
      exact hpost
  | oracle =>
      rw [ha] at hora
      exact hora

end Read

section Plan

theorem Ends.lift {J : Session → Prop} {E : Exc → Local → Prop} {Q : α → Local → Session → Prop}
    {x : Except Migr8Error β} {f : β → Run α} (herr : ∀ m, x = .error m → J s ∧ (p → E (.migr8 m) l))
    (hok : ∀ b, x = .ok b → wp (serve adapter) A I (f b) (Ends p J E Q) l s) :
    wp (serve adapter) A I (liftError x >>= f) (Ends p J E Q) l s := by
  cases x with
  | error m => exact herr m rfl
  | ok b => exact hok b rfl

def admission (input : Input) (plan : Plan) : Except Migr8Error Unit :=
  match input.recoverId with
  | none => requireNoRecoveryNeeded plan
  | some id => checkRecoveryAdmission plan id

def planFor (input : Input) (d : Db) : Except Migr8Error Plan := do
  let plan ← StateValidate.buildPlan input.capture (stored d)
  admission input plan
  return plan

theorem wp_buildPlan (hI : ∀ s, s.db = d → Asks I s) (hA : Answers p A) (hs : AtRest d s) (hl : Poised l)
    (hd : Complete d) :
    wp (serve input.adapter) A I (Engine.buildPlan input) (Ends p (fun s => s.db = d)
      (fun e l' => l'.latch.state = .open ∧ ∃ m, e = .migr8 m ∧ planFor input d = .error m)
      fun plan l' s' => planFor input d = .ok plan ∧ AtRest d s' ∧ Poised l') l s := by
  apply Ends.bind (Ends.mono (wp_readSnapshot hI hA hs hl hd) (fun _ _ _ h => h) (fun _ h => h) fun _ _ h => h.elim)
  rintro snapshot l₁ s₁ ⟨rfl, hs₁, hl₁⟩
  apply Ends.lift
  · intro m hb
    refine ⟨hs₁.db, fun _ => ⟨hl₁.latch, m, rfl, ?_⟩⟩
    rw [planFor, hb]
    rfl
  · intro plan hb
    have hplan : planFor input d = (admission input plan >>= fun _ => pure plan) := by
      rw [planFor, hb]
      rfl
    rw [hplan]
    apply Ends.lift (x := admission input plan)
    · intro m hc
      refine ⟨hs₁.db, fun _ => ⟨hl₁.latch, m, rfl, ?_⟩⟩
      rw [hc]
      rfl
    · intro _ hc
      refine ⟨?_, hs₁, hl₁⟩
      rw [hc]
      rfl

end Plan

end Migr8.Snapshots
