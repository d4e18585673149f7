import Migr8.Rules

namespace Migr8.Discipline

open Errors Model Latch Driver Database World Adapters Metadata Context Engine Rules Lib.Process
open Lib.Interaction (echo)

variable {α β : Type}

def Later (c c' : RunLatch) : Prop := c.state ≠ .open → c' = c

theorem Later.refl (c : RunLatch) : Later c c := fun _ => rfl

theorem Later.trans {a b c : RunLatch} (h : Later a b) (h' : Later b c) : Later a c := by
  intro ha
  have hb := h ha
  rw [hb] at h'
  exact h' ha

theorem Later.set (c : RunLatch) (state : LatchState) (e : Migr8Error) (h : some e.kind = state.errorKind) :
    Later c (c.set state e h) := fun hc => RunLatch.set_of_latched hc

def cleanup : Op → Bool
  | .log .. | .status | .readIdentity | .snapshotCommit | .rollback | .back .. | .ended ..
  | .closeRollback | .releaseLock | .closeConnection | .discardConnection => true
  | _ => false

/-- A request as the latch allows it, after one that showed the latch `c`. The
one request that may follow an unknown outcome is the end of SQLite's snapshot. -/
structure Orderly (adapter : Adapter) (K : Op → Prop) (q : Request) (c : RunLatch) : Prop where
  later : Later c q.state.latch
  silent : q.state.latch.state = .unknownOutcome →
    q.op.submits adapter = false ∧ q.op ≠ .closeConnection ∨ adapter = .sqlite ∧ q.op = .snapshotCommit
  sealed : q.state.latch.state ≠ .open → cleanup q.op = true
  kind : K q.op

abbrev Safe (adapter : Adapter) (K : Op → Prop) (m : Run α) (P : Except Exc α → Local → RunLatch → Prop)
    (l : Local) (c : RunLatch) : Prop :=
  wp (echo fun (q : Request) _ => q.state.latch) (fun _ _ _ => True) (Orderly adapter K) m P l c

def isOpen (state : LatchState) : Prop := state = .open

def known (state : LatchState) : Prop := state ≠ .unknownOutcome

def any (_ : LatchState) : Prop := True

def Told (r : Except Exc α) (c : RunLatch) : Prop := c.state ≠ .open → ∃ e, r = .error e

theorem Told.isOpen {a : α} {c : RunLatch} (h : Told (.ok a) c) : c.state = .open := by
  by_contra hn
  obtain ⟨e, he⟩ := h hn
  cases he

def outcome (l : Local) : Bool × Exit := (l.reported, l.report.exitCode)

/-- What the code between connecting and teardown leaves alone: the recorded
outcome and the hold on the connection. -/
def standing (l : Local) : (Bool × Exit) × Bool × Bool := (outcome l, l.connected, l.connectionHeld)

section Same

variable {V : Type} {view : Local → V}

structure Same (view : Local → V) (l l' : Local) : Prop where
  latch : l'.latch = l.latch
  view : view l' = view l

theorem Same.refl (l : Local) : Same view l l := ⟨rfl, rfl⟩

theorem Same.trans {a b c : Local} (h : Same view a b) (h' : Same view b c) : Same view a c :=
  ⟨h'.latch.trans h.latch, h'.view.trans h.view⟩

theorem Same.pre {a b : Local} {pre : LatchState → Prop} (h : Same view a b) (hp : pre a.latch.state) :
    pre b.latch.state := by
  rw [h.latch]
  exact hp

theorem Same.isOpen {a b : Local} (h : Same view a b) (ha : a.latch.state = .open) : b.latch.state = .open := by
  rw [h.latch]
  exact ha

end Same

/-- A latch that was set keeps what it holds, and the rest stands as it did. -/
structure Onward (l l' : Local) : Prop where
  latch : Later l.latch l'.latch
  standing : standing l' = standing l

theorem Onward.trans {a b c : Local} (h : Onward a b) (h' : Onward b c) : Onward a c :=
  ⟨h.latch.trans h'.latch, h'.standing.trans h.standing⟩

theorem Same.onward {l l' : Local} (h : Same standing l l') : Onward l l' := by
  refine ⟨?_, h.view⟩
  rw [h.latch]
  exact Later.refl _

theorem Onward.refl (l : Local) : Onward l l := Same.onward (Same.refl l)

theorem Onward.set (l : Local) (state : LatchState) (e : Migr8Error) (h : some e.kind = state.errorKind) :
    Onward l { l with latch := l.latch.set state e h } := ⟨Later.set _ _ _ _, rfl⟩

section

variable (adapter : Adapter) (K : Op → Prop) {V : Type} (view : Local → V)

/-- Leaves the latch and the view alone. -/
def Steady (pre : LatchState → Prop) (m : Run α) : Prop :=
  ∀ l c, Later c l.latch → pre l.latch.state →
    Safe adapter K m (fun _ l' c' => Later c' l'.latch ∧ Same view l l') l c

/-- Sets the latch at most once, and does not return when it has been set. -/
def Obeys (pre : LatchState → Prop) (m : Run α) : Prop :=
  ∀ l c, Later c l.latch → pre l.latch.state →
    Safe adapter K m (fun r l' c' => Later c' l'.latch ∧ Onward l l' ∧ Told r l'.latch) l c

/-- Sets the latch at most once. -/
def Quiet (pre : LatchState → Prop) (m : Run α) : Prop :=
  ∀ l c, Later c l.latch → pre l.latch.state →
    Safe adapter K m (fun _ l' c' => Later c' l'.latch ∧ Onward l l') l c

end

variable {adapter : Adapter} {K : Op → Prop} {V : Type} {view : Local → V} {pre : LatchState → Prop} {m n : Run α}
  {f : α → Run β}

theorem Steady.pure (a : α) : Steady adapter K view pre (Pure.pure a) := fun _ _ hc _ => ⟨hc, Same.refl _⟩

theorem Steady.throw (e : Exc) : Steady adapter K view pre (Proc.throw e : Run α) :=
  fun _ _ hc _ => ⟨hc, Same.refl _⟩

theorem Steady.get (f : Local → α) : Steady adapter K view pre (World.get f) := fun _ _ hc _ => ⟨hc, Same.refl _⟩

theorem Steady.modify {f : Local → Local} (h : ∀ l, Same view l (f l)) :
    Steady adapter K view pre (World.modify f) := by
  intro l c hc _
  refine (wp_modify f).2 ⟨?_, h l⟩
  rw [(h l).latch]
  exact hc

theorem Steady.bind (hm : Steady adapter K view pre m) (hf : ∀ a, Steady adapter K view pre (f a)) :
    Steady adapter K view pre (m >>= f) := by
  intro l c hc hp
  refine (wp_bind m f).2 (wp_mono (hm l c hc hp) ?_)
  rintro (e | a) l' c' ⟨hc', hl⟩
  · exact ⟨hc', hl⟩
  · refine wp_mono (hf a l' c' hc' (hl.pre hp)) ?_
    rintro r l'' c'' ⟨hc'', hl'⟩
    exact ⟨hc'', hl.trans hl'⟩

theorem Steady.tryCatch {h : Exc → Run α} (hm : Steady adapter K view pre m)
    (hh : ∀ e, Steady adapter K view pre (h e)) : Steady adapter K view pre (m.tryCatch h) := by
  intro l c hc hp
  refine (wp_tryCatch m h).2 (wp_mono (hm l c hc hp) ?_)
  rintro (e | a) l' c' ⟨hc', hl⟩
  · refine wp_mono (hh e l' c' hc' (hl.pre hp)) ?_
    rintro r l'' c'' ⟨hc'', hl'⟩
    exact ⟨hc'', hl.trans hl'⟩
  · exact ⟨hc', hl⟩

theorem Steady.attempt (hm : Steady adapter K view pre m) : Steady adapter K view pre m.attempt :=
  fun l c hc hp => (wp_attempt m).2 (hm l c hc hp)

theorem Steady.finally {n : Run Unit} (hm : Steady adapter K view pre m) (hn : Steady adapter K view pre n) :
    Steady adapter K view pre (m.finally_ n) := by
  intro l c hc hp
  refine (wp_finally m n).2 (wp_mono (hm l c hc hp) ?_)
  rintro r l' c' ⟨hc', hl⟩
  refine wp_mono (hn l' c' hc' (hl.pre hp)) ?_
  rintro (e | a) l'' c'' ⟨hc'', hl'⟩ <;> exact ⟨hc'', hl.trans hl'⟩

theorem Steady.onlyIf {n : Run Unit} (b : Bool) (hn : Steady adapter K view pre n) :
    Steady adapter K view pre (onlyIf b n) := by
  cases b
  · exact Steady.pure ()
  · exact hn

theorem Steady.ite {p : Prop} [Decidable p] (hm : Steady adapter K view pre m) (hn : Steady adapter K view pre n) :
    Steady adapter K view pre (if p then m else n) := by
  split
  · exact hm
  · exact hn

theorem Steady.weaken {pre' : LatchState → Prop} (h : Steady adapter K view pre m) (hp : ∀ s, pre' s → pre s) :
    Steady adapter K view pre' m := fun l c hc hl => h l c hc (hp _ hl)

theorem Steady.perform {op : Op} (h : ∀ l c, Later c l.latch → pre l.latch.state → Orderly adapter K ⟨op, l⟩ c) :
    Steady adapter K view pre (perform op) := by
  intro l c hc hp
  refine wp_perform.2 ⟨h l c hc hp, ?_⟩
  intro o _
  exact ⟨Later.refl _, Same.refl _⟩

theorem Steady.perform_open {op : Op} (hK : K op) : Steady adapter K view isOpen (World.perform op) :=
  Steady.perform fun _ _ hc hp =>
    ⟨hc, fun h => absurd (hp.symm.trans h) (by decide), fun h => absurd hp h, hK⟩

theorem Steady.perform_known {op : Op} (hK : K op) (ho : cleanup op = true) :
    Steady adapter K view known (World.perform op) :=
  Steady.perform fun _ _ hc hp => ⟨hc, fun h => absurd h hp, fun _ => ho, hK⟩

theorem Steady.perform_any {op : Op} (hK : K op) (ho : cleanup op = true) (hs : op.submits adapter = false)
    (hn : op ≠ .closeConnection) : Steady adapter K view any (World.perform op) :=
  Steady.perform fun _ _ hc _ => ⟨hc, fun _ => .inl ⟨hs, hn⟩, fun _ => ho, hK⟩

theorem Steady.outcome (h : Steady adapter K standing pre m) : Steady adapter K outcome pre m := by
  intro l c hc hp
  refine wp_mono (h l c hc hp) ?_
  rintro r l' c' ⟨hc', hl⟩
  exact ⟨hc', hl.latch, congrArg Prod.fst hl.view⟩

theorem Obeys.of_steady (h : Steady adapter K standing isOpen m) : Obeys adapter K isOpen m := by
  intro l c hc hp
  refine wp_mono (h l c hc hp) ?_
  rintro r l' c' ⟨hc', hl⟩
  exact ⟨hc', hl.onward, fun hs => absurd (hl.pre hp) hs⟩

theorem Obeys.raise (e : Exc) : Obeys adapter K pre (Proc.throw e : Run α) :=
  fun _ _ hc _ => ⟨hc, Onward.refl _, fun _ => ⟨e, rfl⟩⟩

theorem Obeys.bind (hm : Obeys adapter K pre m) (hf : ∀ a, Obeys adapter K isOpen (f a)) :
    Obeys adapter K pre (m >>= f) := by
  intro l c hc hp
  refine (wp_bind m f).2 (wp_mono (hm l c hc hp) ?_)
  rintro (e | a) l' c' ⟨hc', hl, ht⟩
  · exact ⟨hc', hl, fun _ => ⟨e, rfl⟩⟩
  · refine wp_mono (hf a l' c' hc' ht.isOpen) ?_
    rintro r l'' c'' ⟨hc'', hl', ht'⟩
    exact ⟨hc'', hl.trans hl', ht'⟩

theorem Obeys.bind_steady (hm : Steady adapter K standing pre m) (hf : ∀ a, Obeys adapter K pre (f a)) :
    Obeys adapter K pre (m >>= f) := by
  intro l c hc hp
  refine (wp_bind m f).2 (wp_mono (hm l c hc hp) ?_)
  rintro (e | a) l' c' ⟨hc', hl⟩
  · exact ⟨hc', hl.onward, fun _ => ⟨e, rfl⟩⟩
  · refine wp_mono (hf a l' c' hc' (hl.pre hp)) ?_
    rintro r l'' c'' ⟨hc'', hl', ht⟩
    exact ⟨hc'', hl.onward.trans hl', ht⟩

theorem Obeys.weaken {pre' : LatchState → Prop} (h : Obeys adapter K pre m) (hp : ∀ s, pre' s → pre s) :
    Obeys adapter K pre' m := fun l c hc hl => h l c hc (hp _ hl)

theorem Obeys.ite {p : Prop} [Decidable p] (hm : Obeys adapter K pre m) (hn : Obeys adapter K pre n) :
    Obeys adapter K pre (if p then m else n) := by
  split
  · exact hm
  · exact hn

/-- The guard checks the latch first, so its body starts with an open one. -/
theorem Obeys.guarded {g : Guard} (h : Obeys adapter K isOpen m) : Obeys adapter K any (guarded adapter g m) := by
  intro l c hc _
  refine (wp_guarded adapter g m).2 ?_
  cases he : l.latch.error with
  | some e => exact ⟨hc, Onward.refl _, fun _ => ⟨_, rfl⟩⟩
  | none =>
      refine wp_mono (h l c hc ((RunLatch.error_eq_none_iff _).1 he)) ?_
      rintro (e | a) l' c' ⟨hc', hl, ht⟩
      · dsimp only
        rcases guardOutcome_cases adapter g e l' with h | ⟨-, -, h⟩ <;> rw [h]
        · exact ⟨hc', hl, fun _ => ⟨_, rfl⟩⟩
        · exact ⟨hc'.trans (Later.set _ _ _ _), hl.trans (Onward.set _ _ _ _), fun _ => ⟨_, rfl⟩⟩
      · exact ⟨hc', hl, ht⟩

theorem Obeys.checkLatch : Obeys adapter K any checkLatch := by
  intro l c hc _
  refine wp_checkLatch.2 ?_
  cases he : l.latch.error with
  | some e => exact ⟨hc, Onward.refl _, fun _ => ⟨_, rfl⟩⟩
  | none => exact ⟨hc, Onward.refl _, fun hs => absurd ((RunLatch.error_eq_none_iff _).1 he) hs⟩

theorem Obeys.tryCatch {h : Exc → Run α} (hm : Obeys adapter K pre m) (hh : ∀ e, Obeys adapter K any (h e)) :
    Obeys adapter K pre (m.tryCatch h) := by
  intro l c hc hp
  refine (wp_tryCatch m h).2 (wp_mono (hm l c hc hp) ?_)
  rintro (e | a) l' c' ⟨hc', hl, ht⟩
  · refine wp_mono (hh e l' c' hc' trivial) ?_
    rintro r l'' c'' ⟨hc'', hl', ht'⟩
    exact ⟨hc'', hl.trans hl', ht'⟩
  · exact ⟨hc', hl, ht⟩

theorem Quiet.of_obeys (h : Obeys adapter K pre m) : Quiet adapter K pre m :=
  fun l c hc hp => wp_mono (h l c hc hp) fun _ _ _ h => ⟨h.1, h.2.1⟩

theorem Quiet.of_steady (h : Steady adapter K standing pre m) : Quiet adapter K pre m := by
  intro l c hc hp
  refine wp_mono (h l c hc hp) ?_
  rintro r l' c' ⟨hc', hl⟩
  exact ⟨hc', hl.onward⟩

theorem Quiet.bind (hm : Quiet adapter K pre m) (hf : ∀ a, Quiet adapter K any (f a)) :
    Quiet adapter K pre (m >>= f) := by
  intro l c hc hp
  refine (wp_bind m f).2 (wp_mono (hm l c hc hp) ?_)
  rintro (e | a) l' c' ⟨hc', hl⟩
  · exact ⟨hc', hl⟩
  · refine wp_mono (hf a l' c' hc' trivial) ?_
    rintro r l'' c'' ⟨hc'', hl'⟩
    exact ⟨hc'', hl.trans hl'⟩

theorem Quiet.bind_obeys (hm : Quiet adapter K pre m) (hf : ∀ a, Obeys adapter K any (f a)) :
    Obeys adapter K pre (m >>= f) := by
  intro l c hc hp
  refine (wp_bind m f).2 (wp_mono (hm l c hc hp) ?_)
  rintro (e | a) l' c' ⟨hc', hl⟩
  · exact ⟨hc', hl, fun _ => ⟨e, rfl⟩⟩
  · refine wp_mono (hf a l' c' hc' trivial) ?_
    rintro r l'' c'' ⟨hc'', hl', ht⟩
    exact ⟨hc'', hl.trans hl', ht⟩

theorem Quiet.bind_steady (hm : Steady adapter K standing pre m) (hf : ∀ a, Quiet adapter K pre (f a)) :
    Quiet adapter K pre (m >>= f) := by
  intro l c hc hp
  refine (wp_bind m f).2 (wp_mono (hm l c hc hp) ?_)
  rintro (e | a) l' c' ⟨hc', hl⟩
  · exact ⟨hc', hl.onward⟩
  · refine wp_mono (hf a l' c' hc' (hl.pre hp)) ?_
    rintro r l'' c'' ⟨hc'', hl'⟩
    exact ⟨hc'', hl.onward.trans hl'⟩

theorem Quiet.tryCatch {h : Exc → Run α} (hm : Quiet adapter K pre m) (hh : ∀ e, Quiet adapter K any (h e)) :
    Quiet adapter K pre (m.tryCatch h) := by
  intro l c hc hp
  refine (wp_tryCatch m h).2 (wp_mono (hm l c hc hp) ?_)
  rintro (e | a) l' c' ⟨hc', hl⟩
  · refine wp_mono (hh e l' c' hc' trivial) ?_
    rintro r l'' c'' ⟨hc'', hl'⟩
    exact ⟨hc'', hl.trans hl'⟩
  · exact ⟨hc', hl⟩

theorem Quiet.attempt (hm : Quiet adapter K pre m) : Quiet adapter K pre m.attempt :=
  fun l c hc hp => (wp_attempt m).2 (hm l c hc hp)

theorem Quiet.ite {p : Prop} [Decidable p] (hm : Quiet adapter K pre m) (hn : Quiet adapter K pre n) :
    Quiet adapter K pre (if p then m else n) := by
  split
  · exact hm
  · exact hn

theorem Quiet.weaken {pre' : LatchState → Prop} (h : Quiet adapter K pre m) (hp : ∀ s, pre' s → pre s) :
    Quiet adapter K pre' m := fun l c hc hl => h l c hc (hp _ hl)

/-- An unknown outcome has been raised to the caller under its own name. -/
def Named (r : Except Exc α) (c : RunLatch) : Prop :=
  c.state = .unknownOutcome → ∃ e, r = .error e ∧ e.kind? = some .unknownOutcome

theorem kind_of_unknown {c : RunLatch} {e : Migr8Error} (he : c.error = some e) (hc : c.state = .unknownOutcome) :
    e.kind = .unknownOutcome := by
  have ha := c.agree
  rw [he, hc] at ha
  simpa [LatchState.errorKind] using ha

/-- Obeys the latch and names the unknown outcome it leaves, the only failure it
sets the latch for. -/
def Speaks (adapter : Adapter) (K : Op → Prop) (m : Run α) : Prop :=
  ∀ l c, Later c l.latch → Safe adapter K m (fun r l' c' =>
    Later c' l'.latch ∧ Onward l l' ∧ Told r l'.latch ∧ Named r l'.latch ∧
      (l.latch.state = .open → l'.latch.state = .open ∨ l'.latch.state = .unknownOutcome)) l c

theorem Speaks.obeys (h : Speaks adapter K m) : Obeys adapter K any m :=
  fun l c hc _ => wp_mono (h l c hc) fun _ _ _ h => ⟨h.1, h.2.1, h.2.2.1⟩

theorem Named.of_open {r : Except Exc α} {c : RunLatch} (h : c.state = .open) : Named r c :=
  fun hu => absurd (h.symm.trans hu) (by decide)

theorem Named.kind {e : Exc} {c : RunLatch} (h : Named (.error e : Except Exc α) c)
    (hu : c.state = .unknownOutcome) : e.kind? = some .unknownOutcome := by
  obtain ⟨e', he, hk⟩ := h hu
  cases he
  exact hk

theorem Steady.speaks {g : Guard} (h : Steady adapter K standing isOpen m) :
    Speaks adapter K (guarded adapter g m) := by
  intro l c hc
  refine (wp_guarded adapter g m).2 ?_
  cases he : l.latch.error with
  | some e =>
      refine ⟨hc, Onward.refl _, fun _ => ⟨_, rfl⟩, fun hu => ⟨_, rfl, ?_⟩, .inl⟩
      rw [Exc.kind?, kind_of_unknown he hu]
  | none =>
      have ho : l.latch.state = .open := (RunLatch.error_eq_none_iff _).1 he
      refine wp_mono (h l c hc ho) ?_
      rintro (e | a) l' c' ⟨hc', hl⟩
      · have ho' : l'.latch.state = .open := hl.isOpen ho
        dsimp only
        rcases guardOutcome_cases adapter g e l' with h | ⟨-, -, h⟩ <;> rw [h]
        · exact ⟨hc', hl.onward, fun _ => ⟨_, rfl⟩, Named.of_open ho', fun _ => .inl ho'⟩
        · refine ⟨hc'.trans (Later.set _ _ _ _), hl.onward.trans (Onward.set _ _ _ _), fun _ => ⟨_, rfl⟩,
            fun _ => ⟨_, rfl, rfl⟩, fun _ => .inr ?_⟩
          simp [RunLatch.latchUnknown, RunLatch.set, ho']
      · have ho' : l'.latch.state = .open := hl.isOpen ho
        exact ⟨hc', hl.onward, fun hn => absurd ho' hn, Named.of_open ho', fun _ => .inl ho'⟩

theorem Obeys.failBatch (e : Migr8Error) (h : e.kind = .migrationFailed) :
    Obeys adapter K pre (failBatch e h : Run α) := by
  intro l c hc _
  exact ⟨hc.trans (Later.set _ _ _ _), Onward.set _ _ _ _, fun _ => ⟨_, rfl⟩⟩

theorem Obeys.violate (e : Migr8Error) (h : e.kind = .contractViolation) :
    Obeys adapter K pre (violate e h : Run α) := by
  intro l c hc _
  exact ⟨hc.trans (Later.set _ _ _ _), Onward.set _ _ _ _, fun _ => ⟨_, rfl⟩⟩

section Transactions

def txnOp : Op → Bool
  | .status | .begin | .rollback | .establishIdentity | .readIdentity => true
  | _ => false

theorem Steady.probeTransaction (hs : K .status) (hi : K .readIdentity) :
    Steady adapter K standing known (probeTransaction adapter) := by
  cases adapter
  case oracle => exact (Steady.perform_known hi rfl).bind fun _ => Steady.pure _
  all_goals exact (Steady.perform_known hs rfl).bind fun _ => Steady.pure _

theorem Obeys.hasOpenTransaction (hs : K .status) (hi : K .readIdentity) :
    Obeys adapter K any (hasOpenTransaction adapter) :=
  Obeys.guarded (Obeys.of_steady ((Steady.probeTransaction hs hi).weaken fun _ h => by rw [h]; nofun))

variable (hT : ∀ op, txnOp op = true → K op)

include hT

theorem Steady.doBegin : Steady adapter K standing isOpen (doBegin adapter) := by
  cases adapter
  case sqlite => exact (Steady.perform_open (hT _ rfl)).bind fun _ => Steady.modify fun _ => ⟨rfl, rfl⟩
  case postgres => exact Steady.perform_open (hT _ rfl)
  case oracle => exact Steady.pure ()

theorem Obeys.begin : Obeys adapter K any (begin adapter) := by
  refine Obeys.bind_steady (Steady.get _) fun flag => Obeys.ite (Obeys.raise _) ?_
  refine (Obeys.hasOpenTransaction (hT _ rfl) (hT _ rfl)).bind fun opened => Obeys.ite (Obeys.raise _) ?_
  refine Obeys.bind ((Obeys.guarded (Obeys.of_steady (Steady.doBegin hT))).weaken fun _ _ => trivial) ?_
  exact fun _ => Obeys.of_steady (Steady.modify fun _ => ⟨rfl, rfl⟩)

theorem Steady.doCommit {b : Boundary} (hb : K (.commit b)) :
    Steady adapter K standing isOpen (doCommit adapter b) := by
  have hs : Steady adapter K standing isOpen (World.perform .status) := Steady.perform_open (hT _ rfl)
  have hc : Steady adapter K standing isOpen (World.perform (.commit b)) := Steady.perform_open hb
  cases adapter
  case sqlite =>
    refine hs.bind fun _ => (hc.tryCatch fun e => ?_).bind fun _ => Steady.modify fun _ => ⟨rfl, rfl⟩
    unfold commitFailed
    split
    · exact Steady.ite (Steady.throw _) (Steady.throw _)
    · exact Steady.throw _
  case postgres =>
    exact hs.bind fun _ => Steady.ite (Steady.throw _) (hc.bind fun _ => Steady.ite (Steady.throw _) (Steady.pure _))
  case oracle => exact hc.bind fun _ => Steady.pure _

theorem Steady.commit {b : Boundary} (hb : K (.commit b)) : Steady adapter K standing isOpen (commit adapter b) :=
  (Steady.doCommit hT hb).bind fun _ => Steady.modify fun _ => ⟨rfl, rfl⟩

theorem Obeys.durableCommit {b : Boundary} {id : Option String} (hb : K (.commit b)) :
    Obeys adapter K any (durableCommit adapter b id) :=
  Obeys.guarded (Obeys.of_steady (Steady.commit hT hb))

omit hT in
theorem Steady.rollback (hs : K .status) (hr : K .rollback) :
    Steady adapter K standing known (rollback adapter) := by
  refine Steady.bind ?_ fun _ => Steady.modify fun _ => ⟨rfl, rfl⟩
  have hs : Steady adapter K standing known (World.perform .status) := Steady.perform_known hs rfl
  have hr : Steady adapter K standing known (World.perform .rollback) := Steady.perform_known hr rfl
  cases adapter
  case sqlite => exact hs.bind fun _ => Steady.onlyIf _ (hr.bind fun _ => Steady.modify fun _ => ⟨rfl, rfl⟩)
  case postgres => exact hs.bind fun _ => Steady.onlyIf _ hr
  case oracle => exact hr

omit hT in
theorem Steady.batchTransactionState (hs : K .status) :
    Steady adapter K standing any (batchTransactionState adapter) :=
  (Steady.perform_any hs rfl rfl nofun).bind fun _ => Steady.ite (Steady.pure _) (Steady.pure _)

theorem Speaks.establishTransactionIdentity : Speaks adapter K (establishTransactionIdentity adapter) := by
  refine Steady.speaks ?_
  have hs : Steady adapter K standing isOpen (World.perform .status) := Steady.perform_open (hT _ rfl)
  have hi : Steady adapter K standing isOpen (World.perform .establishIdentity) := Steady.perform_open (hT _ rfl)
  cases adapter
  case sqlite => exact hs.bind fun _ => Steady.ite ((Steady.get _).bind fun _ => Steady.pure _) (Steady.throw _)
  all_goals exact hi.bind fun _ => Steady.pure _

theorem Speaks.readTransactionIdentity : Speaks adapter K (readTransactionIdentity adapter) := by
  refine Steady.speaks ?_
  have hs : Steady adapter K standing isOpen (World.perform .status) := Steady.perform_open (hT _ rfl)
  have hi : Steady adapter K standing isOpen (World.perform .readIdentity) := Steady.perform_open (hT _ rfl)
  cases adapter
  case sqlite => exact hs.bind fun _ => Steady.ite ((Steady.get _).bind fun _ => Steady.pure _) (Steady.pure _)
  case postgres => exact hs.bind fun _ => Steady.ite (hi.bind fun _ => Steady.pure _) (Steady.pure _)
  case oracle => exact hi.bind fun _ => Steady.pure _

end Transactions

end Migr8.Discipline
