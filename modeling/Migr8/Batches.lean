import Migr8.ExactlyOnce
import Migr8.Keeping

namespace Migr8.Batches

open Errors Model Latch Driver Database World Adapters Metadata Context Engine Rules Discipline Obedience
open EngineObedience Teardown RunObedience Sessions Transactions DurableHistory Effects Keeping Lib.Process
open ExactlyOnce (Past mem_settledSteps)
open Lib.Interaction (Exchange trace final play_wp final_wp)

variable {α β : Type} {adapter : Adapter} {input : Input} {unit : CapturedUnit} {s s' : Session} {l : Local}
  {o : Outcome}
  {k n : Nat} {f : Facade} {p : Work → Bool}

def inBatch (k n : Nat) (w : Work) : Bool := w.invocation == k && w.block == some n

def ofBatch (k n : Nat) (works : List Work) : List Work := works.filter (inBatch k n)

/-- Nothing of the batch, or everything that has ever been written in it. -/
def Whole (k n : Nat) (P : List Work) (works : List Work) : Prop :=
  ofBatch k n works = [] ∨ ofBatch k n works = ofBatch k n P

/-- No batch is in the database in part, unless one of its statements has committed
the transaction underneath it. -/
def Undivided (s : Session) : Prop :=
  ∀ k n, (k, some n) ∉ s.broken → Holds (fun d => Whole k n s.performed d.data) s

/-- A statement of a batch ends the transaction by committing it, if at all. -/
def Confined (q : Request) (s : Session) (o : Outcome) : Prop :=
  ∀ scope verb sql commitCapable, q.op = .statement scope verb sql commitCapable → scope.block.isSome = true →
    ∀ step ∈ o.steps, step ≠ .rollback ∧ (s.aborted = true → step.isWrite = true)

section Works

theorem ofBatch_other {works new : List Work} (h : ∀ w ∈ new, w.invocation = k → w.block ≠ some n) :
    ofBatch k n (works ++ new) = ofBatch k n works := by
  have hnone : new.filter (inBatch k n) = [] := by
    apply List.filter_eq_nil_iff.2
    intro w hw hb
    obtain ⟨hk, hn⟩ := Bool.and_eq_true_iff.1 hb
    exact h w hw (beq_iff_eq.1 hk) (beq_iff_eq.1 hn)
  rw [ofBatch, List.filter_append, hnone, List.append_nil]
  rfl

theorem ofBatch_none {works : List Work} (h : ∀ w ∈ works, w.invocation = k → w.block ≠ some n) :
    ofBatch k n works = [] := by
  have hnone : ofBatch k n ([] ++ works) = ofBatch k n [] := ofBatch_other h
  exact hnone

theorem broken_step (scope : Scope) (s : Session) (step : Step) :
    (s.step adapter scope step).broken = s.broken ∨
      (s.step adapter scope step).broken = s.broken ++ [(s.invocation, scope.block)] := by
  cases step with
  | write tag =>
      have ht : Touches s
          (s.put adapter false { s.visible with data := s.visible.data ++ [s.work scope (.statement tag)] }) :=
        touches_put
      exact .inl ht.broken
  | rollback => cases adapter <;> exact .inl rfl
  | commit chain =>
      unfold Session.step
      cases adapter <;> cases s.txn <;> dsimp only
      case sqlite.none | sqlite.some | postgres.none | oracle.none => exact .inl rfl
      all_goals
        split
        · exact .inl rfl
        · exact .inr rfl

/-- Nothing is ever taken off, and what is new is of the current invocation. -/
theorem broken_steps (scope : Scope) (s : Session) (steps : List Step) :
    s.broken ⊆ (s.steps adapter scope steps).broken ∧
      ∀ x ∈ (s.steps adapter scope steps).broken, x ∈ s.broken ∨ x.1 = s.invocation := by
  unfold Session.steps
  induction steps generalizing s with
  | nil => exact ⟨fun _ h => h, fun _ h => .inl h⟩
  | cons step steps ih =>
      have hinv : (s.step adapter scope step).invocation = s.invocation := congrArg Prod.snd (ledger_step step)
      obtain ⟨hsub, hnew⟩ := ih (s.step adapter scope step)
      rw [hinv] at hnew
      have hstep := @broken_step adapter scope s step
      rcases hstep with he | he <;> rw [he] at hsub hnew
      · exact ⟨hsub, hnew⟩
      · refine ⟨fun x hx => hsub (List.mem_append_left _ hx), fun x hx => ?_⟩
        rcases hnew x hx with hx | hx
        · rcases List.mem_append.1 hx with hx | hx
          · exact .inl hx
          · rw [List.mem_singleton.1 hx]
            exact .inr rfl
        · exact .inr hx

theorem Undivided.touched (h : Undivided s) (ht : Touches s s')
    (hh : ∀ D : List Work → Prop, Holds (fun d => D d.data) s → Holds (fun d => D d.data) s') : Undivided s' := by
  intro k n hb
  rw [ht.broken] at hb
  rw [ht.performed]
  exact hh (Whole k n s.performed) (h k n hb)

/-- A batch has nothing to do with a statement outside of it. -/
theorem holds_steps_other {scope : Scope} (steps : List Step) (hne : s.invocation = k → scope.block ≠ some n)
    (h : Holds (fun d => Whole k n s.performed d.data) s) :
    Holds (fun d => Whole k n (s.steps adapter scope steps).performed d.data) (s.steps adapter scope steps) := by
  obtain ⟨new, hnew, howned⟩ := performed_steps adapter scope s steps
  have hsame : ofBatch k n (s.steps adapter scope steps).performed = ofBatch k n s.performed := by
    rw [hnew]
    apply ofBatch_other
    intro w hw hk
    rw [(howned w hw).2.1]
    exact hne ((howned w hw).2.2.symm.trans hk)
  have hsteps : Holds (fun d => Whole k n s.performed d.data) (s.steps adapter scope steps) := by
    apply holds_steps ?_ steps h
    intro d tag hd
    have hother : ofBatch k n (d.data ++ [s.work scope (.statement tag)]) = ofBatch k n d.data := by
      apply ofBatch_other
      intro w hw hk
      rw [List.mem_singleton.1 hw] at hk ⊢
      exact hne hk
    unfold Whole
    rw [hother]
    exact hd
  unfold Whole at hsteps ⊢
  rw [hsame]
  exact hsteps

theorem Undivided.steps_outside {scope : Scope} (steps : List Step) (hs : scope.block = none) (h : Undivided s) :
    Undivided (s.steps adapter scope steps) := by
  intro k n hb
  apply holds_steps_other steps
  · intro _
    rw [hs]
    exact fun h => by cases h
  · exact h k n fun hmem => hb ((broken_steps scope s steps).1 hmem)

theorem Undivided.afresh (h : Undivided s) : Undivided s.afresh := fun k n hb => Holds.of_none (h k n hb).db rfl

end Works

section Underway

/-- Nothing of the writes that `p` tells of is durable, and an open transaction holds
all of them. -/
structure Underway (p : Work → Bool) (s : Session) : Prop where
  durable : s.db.data.filter p = []
  working : ∀ t, s.txn = some t → t.working.data.filter p = s.performed.filter p

/-- No new transaction, and what is durable is as it was. -/
structure Ebbs (s s' : Session) : Prop where
  touches : Touches s s'
  db : s'.db = s.db
  txn : ∀ t', s'.txn = some t' → ∃ t, s.txn = some t ∧ t'.working = t.working

theorem Ebbs.refl (s : Session) : Ebbs s s := ⟨Touches.refl s, rfl, fun t h => ⟨t, h, rfl⟩⟩

theorem Ebbs.trans {s'' : Session} (h : Ebbs s s') (h' : Ebbs s' s'') : Ebbs s s'' := by
  refine ⟨h.touches.trans h'.touches, h'.db.trans h.db, ?_⟩
  intro t'' ht''
  obtain ⟨t', ht', hw'⟩ := h'.txn t'' ht''
  obtain ⟨t, ht, hw⟩ := h.txn t' ht'
  exact ⟨t, ht, hw'.trans hw⟩

theorem Ebbs.holds {D : Db → Prop} (h : Ebbs s s') (hs : Holds D s) : Holds D s' := by
  constructor
  · rw [h.db]
    exact hs.db
  · intro t' ht'
    obtain ⟨t, ht, hw⟩ := h.txn t' ht'
    rw [hw]
    exact hs.working t ht

theorem Ebbs.underway (h : Ebbs s s') (hs : Underway p s) : Underway p s' := by
  constructor
  · rw [h.db]
    exact hs.durable
  · intro t' ht'
    obtain ⟨t, ht, hw⟩ := h.txn t' ht'
    rw [hw, h.touches.performed]
    exact hs.working t ht

theorem ebbs_endTxn : Ebbs s s.endTxn := ⟨touches_endTxn, rfl, fun t h => by cases h⟩

theorem ebbs_fail : Ebbs s (s.fail adapter o) := by
  refine ⟨touches_fail, fail_db, ?_⟩
  intro t' ht'
  unfold Session.fail at ht'
  cases ht : s.txn with
  | none =>
      rw [ht] at ht'
      cases ht'.symm.trans ht
  | some t =>
      rw [ht] at ht'
      cases adapter <;> dsimp only at ht'
      case oracle => exact ⟨t', ht'.symm.trans ht |>.symm ▸ rfl, rfl⟩
      case sqlite =>
        split at ht'
        · cases ht'
        · exact ⟨t', ht'.symm.trans ht |>.symm ▸ rfl, rfl⟩
      case postgres =>
        split at ht'
        · cases ht'
          exact ⟨t, rfl, rfl⟩
        · exact ⟨t', ht'.symm.trans ht |>.symm ▸ rfl, rfl⟩

def aside : Op → Bool
  | .status | .readIdentity | .progressGet .. | .rollback | .back .. | .ended .. => true
  | _ => false

theorem ebbs_serve {q : Request} (h : aside q.op = true) : Ebbs s (serve adapter q o s).2 := by
  obtain ⟨op, l⟩ := q
  cases op <;> try cases h
  case status => exact Ebbs.refl s
  case back | ended => exact Ebbs.refl s
  case readIdentity =>
    exact submit_keeps (J := Ebbs s) (Ebbs.refl s) (fun h => h) (fun h => h) fun _ h =>
      h.trans ebbs_fail
  case progressGet =>
    refine submit_keeps (J := Ebbs s) (Ebbs.refl s) (fun h => ?_) (fun h => h) fun _ h => h.trans ebbs_fail
    unfold selectRows
    split <;> exact h
  case rollback =>
    have hboth : (serve adapter ⟨.rollback, l⟩ o s).2 = s ∨ (serve adapter ⟨.rollback, l⟩ o s).2 = s.endTxn := by
      change (serveRollback o s).2 = s ∨ (serveRollback o s).2 = s.endTxn
      unfold serveRollback
      split
      · exact .inr rfl
      · dsimp only
        split <;> [exact .inr rfl; exact .inl rfl]
    rcases hboth with he | he
    · rw [he]
      exact Ebbs.refl s
    · rw [he]
      exact ebbs_endTxn

theorem Underway.record {engine : Bool} {w : Work} {d : Db} {t : Txn} (h : Underway p s) (ht : s.txn = some t)
    (hw : p w = true) (hd : d.data = s.visible.data) :
    Underway p (s.record adapter engine w d) ∧ (s.record adapter engine w d).broken = s.broken ∧
      (s.record adapter engine w d).txn = some { t with working := { d with data := d.data ++ [w] } } := by
  have hrecord : s.record adapter engine w d =
      { s with
        txn := some { t with working := { d with data := d.data ++ [w] } }
        performed := s.performed ++ [w] } := by
    simp only [Session.record, Session.put, ht]
  have hvisible : s.visible = t.working := by rw [Session.visible, ht]
  have hown : [w].filter p = [w] := by rw [List.filter_singleton, hw]; rfl
  rw [hrecord]
  refine ⟨⟨h.durable, ?_⟩, rfl, rfl⟩
  intro t' ht'
  cases ht'
  dsimp only
  rw [List.filter_append, List.filter_append, hown, hd, hvisible, h.working t ht]

theorem inBatch_work {scope : Scope} {item : Item} (hb : scope.block = some n) :
    inBatch s.invocation n (s.work scope item) = true := by
  simp [inBatch, Session.work, hb]

/-- A step of a statement of the batch: the batch goes on, or its transaction has
been committed underneath it. -/
theorem Underway.step {scope : Scope} {step : Step} (hb : scope.block = some n)
    (h : Underway (inBatch s.invocation n) s)
    (ht : s.txn.isSome = true) (hstep : step ≠ .rollback ∧ (s.aborted = true → step.isWrite = true)) :
    (s.invocation, some n) ∈ (s.step adapter scope step).broken ∨
      Underway (inBatch s.invocation n) (s.step adapter scope step) ∧ (s.step adapter scope step).txn.isSome = true ∧
        (s.step adapter scope step).aborted = s.aborted := by
  obtain ⟨t, ht⟩ := Option.isSome_iff_exists.1 ht
  cases step with
  | write tag =>
      have hwritten : Underway (inBatch s.invocation n) (s.step adapter scope (.write tag)) ∧ _ ∧
          (s.step adapter scope (.write tag)).txn = _ := h.record ht (inBatch_work hb) rfl
      refine .inr ⟨hwritten.1, ?_, ?_⟩
      · rw [hwritten.2.2]
        rfl
      · unfold Session.aborted
        rw [hwritten.2.2, ht]
  | rollback => exact absurd rfl hstep.1
  | commit chain =>
      have ha : t.aborted = false := by
        cases hab : t.aborted with
        | false => rfl
        | true =>
            have hs : s.aborted = true := by simp only [Session.aborted, ht, hab]
            cases hstep.2 hs
      cases adapter <;> simp only [Session.step, ht, ha]
      case sqlite => exact .inr ⟨h, rfl, trivial⟩
      all_goals
        left
        rw [hb]
        exact List.mem_append_right _ (List.mem_singleton.2 rfl)

theorem Underway.steps {scope : Scope} (hb : scope.block = some n) (steps : List Step)
    (h : Underway (inBatch s.invocation n) s) (ht : s.txn.isSome = true)
    (hsteps : ∀ step ∈ steps, step ≠ .rollback ∧ (s.aborted = true → step.isWrite = true)) :
    (s.invocation, some n) ∈ (s.steps adapter scope steps).broken ∨
      Underway (inBatch s.invocation n) (s.steps adapter scope steps) := by
  unfold Session.steps
  induction steps generalizing s with
  | nil => exact .inr h
  | cons step steps ih =>
      have hinv : (s.step adapter scope step).invocation = s.invocation := congrArg Prod.snd (ledger_step step)
      rcases h.step hb ht (hsteps step List.mem_cons_self) with hbroken | ⟨h', ht', hab⟩
      · exact .inl ((broken_steps scope _ steps).1 hbroken)
      · rw [← hinv] at h' ⊢
        apply ih h' ht'
        intro step' hs'
        rw [hab]
        exact hsteps step' (List.mem_cons_of_mem _ hs')

end Underway

section Live

/-- What holds between the requests of migration code that has the context `f`. -/
structure Live (f : Facade) (s : Session) : Prop where
  past : Past s
  undivided : Undivided s
  bound : ∀ w ∈ s.performed, w.invocation = s.invocation → ∀ n, w.block = some n → n ≤ f.entered
  underway : f.inBatch = true → (s.invocation, some f.entered) ∉ s.broken → Underway (inBatch s.invocation f.entered) s

theorem Underway.holds (h : Underway (inBatch k n) s) : Holds (fun d => Whole k n s.performed d.data) s :=
  ⟨.inl h.durable, fun t ht => .inr (h.working t ht)⟩

theorem Live.ebb (h : Live f s) (he : Ebbs s s') : Live f s' := by
  refine ⟨h.past.touched he.touches, h.undivided.touched he.touches fun _ => he.holds, ?_, ?_⟩
  · rw [he.touches.performed, he.touches.invocation]
    exact h.bound
  · rw [he.touches.invocation, he.touches.broken]
    exact fun hf hb => he.underway (h.underway hf hb)

theorem Live.note {event : String} {id : Option String} (h : Live f s) : Live f (s.note event id) :=
  ⟨h.past, fun k n hb => ⟨(h.undivided k n hb).db, (h.undivided k n hb).working⟩, h.bound,
    fun hf hb => ⟨(h.underway hf hb).durable, (h.underway hf hb).working⟩⟩

theorem Live.log {event : String} {id : Option String} (h : Live f s) :
    Live f (serve adapter ⟨.log event id, l⟩ o s).2 := by
  have hlog : (serve adapter ⟨.log event id, l⟩ o s).2 = s ∨ (serve adapter ⟨.log event id, l⟩ o s).2 =
      s.note event id :=
    log_cases
  rcases hlog with hlog | hlog
  · rw [hlog]
    exact h
  · rw [hlog]
    exact h.note

def outside : Op → Prop
  | .statement scope .. => scope.block = none
  | .progressSet .. => False
  | _ => True

theorem Undivided.serve {q : Request} (hq : outside q.op) (h : Undivided s) : Undivided (serve adapter q o s).2 := by
  obtain ⟨op, l⟩ := q
  cases op
  case log event id =>
    have hlog : (World.serve adapter ⟨.log event id, l⟩ o s).2 = s ∨
        (World.serve adapter ⟨.log event id, l⟩ o s).2 = s.note event id := log_cases
    rcases hlog with hlog | hlog
    · rw [hlog]
      exact h
    · rw [hlog]
      exact fun k n hb => ⟨(h k n hb).db, (h k n hb).working⟩
  case invoke => exact fun k n hb => ⟨(h k n hb).db, (h k n hb).working⟩
  case statement =>
    exact submit_keeps (J := Undivided) h (fun h => h.steps_outside _ hq) (fun h => h.steps_outside _ hq)
      fun s hs => hs.touched touches_fail fun _ hd => hd.fail
  case progressSet => exact hq.elim
  all_goals exact h.touched (touches_serve rfl) fun D hd => hd.serve (keeps_data D rfl)

theorem Live.steps_outside {scope : Scope} (hf : f.inBatch = false) (hs : scope.block = none) (steps : List Step)
    (h : Live f s) : Live f (s.steps adapter scope steps) := by
  obtain ⟨new, hnew, howned⟩ := performed_steps adapter scope s steps
  have hinv : (s.steps adapter scope steps).invocation = s.invocation := congrArg Prod.snd (ledger_steps steps)
  refine ⟨h.past.steps steps, h.undivided.steps_outside steps hs, ?_, fun hf' => by rw [hf] at hf'; cases hf'⟩
  intro w hw hk m hm
  rw [hnew] at hw
  rw [hinv] at hk
  rcases List.mem_append.1 hw with hw | hw
  · exact h.bound w hw hk m hm
  · rw [(howned w hw).2.1, hs] at hm
    cases hm

theorem Live.outside {q : Request} (hf : f.inBatch = false) (hq : outside q.op)
    (hi : ∀ id attempt, q.op ≠ .invoke id attempt)
    (h : Live f s) : Live f (serve adapter q o s).2 := by
  have hfail (s : Session) (h : Live f s) : Live f (s.fail adapter o) := h.ebb ebbs_fail
  have htouched {s' : Session} (ht : Touches s s') (hu : Undivided s') : Live f s' := by
    refine ⟨h.past.touched ht, hu, ?_, fun hf' => by rw [hf] at hf'; cases hf'⟩
    rw [ht.performed, ht.invocation]
    exact h.bound
  have hundivided : Undivided (World.serve adapter q o s).2 := h.undivided.serve hq
  obtain ⟨op, l⟩ := q
  cases op
  case log => exact h.log
  case invoke => exact absurd rfl (hi _ _)
  case statement =>
    exact submit_keeps (J := Live f) h (fun h => h.steps_outside hf hq _) (fun h => h.steps_outside hf hq _) hfail
  case progressSet => exact hq.elim
  all_goals exact htouched (touches_serve rfl) hundivided

theorem Live.steps_inside {scope : Scope} (hf : f.inBatch = true) (hb : scope.block = some f.entered)
    (ht : s.txn.isSome = true)
    (steps : List Step) (hsteps : ∀ step ∈ steps, step ≠ .rollback ∧ (s.aborted = true → step.isWrite = true))
    (h : Live f s) : Live f (s.steps adapter scope steps) := by
  obtain ⟨new, hnew, howned⟩ := performed_steps adapter scope s steps
  have hinv : (s.steps adapter scope steps).invocation = s.invocation := congrArg Prod.snd (ledger_steps steps)
  have hown (hn : (s.invocation, some f.entered) ∉ (s.steps adapter scope steps).broken) :
      Underway (inBatch s.invocation f.entered) (s.steps adapter scope steps) := by
    have hn' : (s.invocation, some f.entered) ∉ s.broken := fun hmem => hn ((broken_steps scope s steps).1 hmem)
    exact ((h.underway hf hn').steps hb steps ht hsteps).resolve_left hn
  refine ⟨h.past.steps steps, ?_, ?_, ?_⟩
  · intro k n hn
    by_cases hsame : s.invocation = k ∧ scope.block = some n
    · obtain ⟨rfl, hblock⟩ := hsame
      rw [hb] at hblock
      cases hblock
      exact (hown hn).holds
    · apply holds_steps_other steps
      · exact fun hk hblock => hsame ⟨hk, hblock⟩
      · exact h.undivided k n fun hmem => hn ((broken_steps scope s steps).1 hmem)
  · intro w hw hk m hm
    rw [hnew] at hw
    rw [hinv] at hk
    rcases List.mem_append.1 hw with hw | hw
    · exact h.bound w hw hk m hm
    · rw [(howned w hw).2.1, hb] at hm
      cases hm
      exact le_rfl
  · rw [hinv]
    exact fun _ hn => hown hn

theorem Live.record_inside {engine : Bool} {w : Work} {d : Db} (hf : f.inBatch = true)
    (hw : w.invocation = s.invocation ∧ w.block = some f.entered) (ht : s.txn.isSome = true)
    (hd : d.data = s.visible.data) (h : Live f s) : Live f (s.record adapter engine w d) := by
  have hput : Touches s (s.put adapter engine { d with data := d.data ++ [w] }) := touches_put
  have hbroken : (s.record adapter engine w d).broken = s.broken := hput.broken
  have hinv : (s.record adapter engine w d).invocation = s.invocation := hput.invocation
  have hperformed : (s.record adapter engine w d).performed = s.performed ++ [w] := rfl
  have hown (hn : (s.invocation, some f.entered) ∉ s.broken) :
      Underway (inBatch s.invocation f.entered) (s.record adapter engine w d) :=
    by
      obtain ⟨t, ht⟩ := Option.isSome_iff_exists.1 ht
      have hin : inBatch s.invocation f.entered w = true := by simp [inBatch, hw.1, hw.2]
      exact ((h.underway hf hn).record ht hin hd).1
  refine ⟨?_, ?_, ?_, ?_⟩
  · intro x hx
    rw [hperformed] at hx
    rw [hinv]
    rcases List.mem_append.1 hx with hx | hx
    · exact h.past x hx
    · rw [List.mem_singleton.1 hx]
      exact le_of_eq hw.1
  · intro k n hn
    rw [hbroken] at hn
    by_cases hsame : s.invocation = k ∧ f.entered = n
    · obtain ⟨rfl, rfl⟩ := hsame
      exact (hown hn).holds
    · have hother (works : List Work) : ofBatch k n (works ++ [w]) = ofBatch k n works := by
        apply ofBatch_other
        intro x hx hk hm
        rw [List.mem_singleton.1 hx] at hk hm
        rw [hw.2] at hm
        exact hsame ⟨hw.1.symm.trans hk, Option.some.inj hm⟩
      have hwhole := h.undivided k n hn
      apply Holds.record (D := fun x => Whole k n (s.record adapter engine w d).performed x.data)
      · unfold Whole at hwhole ⊢
        rw [hperformed, hother]
        exact hwhole
      · have hvisible := hwhole.visible
        unfold Whole at hvisible ⊢
        dsimp only
        rw [hperformed, hother, hother, hd]
        exact hvisible
  · intro x hx hk m hm
    rw [hperformed] at hx
    rw [hinv] at hk
    rcases List.mem_append.1 hx with hx | hx
    · exact h.bound x hx hk m hm
    · rw [List.mem_singleton.1 hx, hw.2] at hm
      cases hm
      exact le_rfl
  · rw [hinv, hbroken]
    exact fun _ hn => hown hn

end Live

section Programs

def inside : Op → Bool
  | .statement scope .. | .progressSet scope .. => scope.block.isSome
  | _ => false

structure Seen (q : Request) (s : Session) : Prop where
  past : Past s
  undivided : Undivided s
  owned : inside q.op = true → s.txn.isSome = true

def At (f : Facade) (l : Local) (s : Session) : Prop := l.facade = f ∧ Live f s

def Running (l : Local) (s : Session) : Prop := Live l.facade s

theorem kept_aside : Kept adapter Confined Seen (At f) fun op => aside op = true ∨ ∃ event id, op = .log event id where
  seen := by
    intro op l s hop hs
    refine ⟨hs.2.past, hs.2.undivided, fun hi => ?_⟩
    rcases hop with hop | ⟨event, id, rfl⟩
    · cases op <;> first | cases hi | cases hop
    · cases hi
  step := by
    intro op l s o hop _ hs
    refine ⟨hs.1, ?_⟩
    rcases hop with hop | ⟨event, id, rfl⟩
    · exact hs.2.ebb (ebbs_serve hop)
    · exact hs.2.log
  state := fun l l' s hl hs => ⟨hl.trans hs.1, hs.2⟩

theorem kept_outside (hf : f.inBatch = false) :
    Kept adapter Confined Seen (At f) fun op => outside op ∧ ∀ id attempt, op ≠ .invoke id attempt where
  seen := by
    intro op l s hop hs
    refine ⟨hs.2.past, hs.2.undivided, fun hi => ?_⟩
    cases op <;> try cases hi
    case statement scope verb sql commitCapable =>
      have hnone : scope.block = none := hop.1
      simp only [inside, hnone] at hi
      cases hi
    case progressSet => exact hop.1.elim
  step := fun op l s o hop _ hs => ⟨hs.1, hs.2.outside hf hop.1 hop.2⟩
  state := fun l l' s hl hs => ⟨hl.trans hs.1, hs.2⟩

theorem txn_outside (op : Op) (h : txnOp op = true) : outside op ∧ ∀ id attempt, op ≠ .invoke id attempt := by
  cases op <;> cases h
  all_goals exact ⟨trivial, fun _ _ h => by cases h⟩

theorem maintains_running {m : Run α} (hm : ∀ f, Maintains (serve adapter) Confined Seen (At f) m) :
    Maintains (serve adapter) Confined Seen Running m := by
  intro l s h
  apply wp_mono (hm l.facade l s ⟨rfl, h⟩)
  intro r l' s' h'
  unfold Running
  rw [h'.1]
  exact h'.2

theorem Live.congr {f' : Facade} (h : Live f s) (hb : f'.inBatch = f.inBatch) (he : f'.entered = f.entered) :
    Live f' s := by
  refine ⟨h.past, h.undivided, ?_, ?_⟩
  · rw [he]
    exact h.bound
  · rw [hb, he]
    exact h.underway

theorem Live.closed {f' : Facade} (h : Live f s) (hb : f'.inBatch = false) (he : f'.entered = f.entered) :
    Live f' s := by
  refine ⟨h.past, h.undivided, ?_, fun hf => by rw [hb] at hf; cases hf⟩
  rw [he]
  exact h.bound

/-- A batch starts with nothing of it anywhere. -/
theorem Live.entered {f' : Facade} (h : Live f s) (he : f'.entered = f.entered + 1) : Live f' s := by
  have hnone : ofBatch s.invocation f'.entered s.performed = [] := by
    apply ofBatch_none
    intro w hw hk hn
    have hle := h.bound w hw hk f'.entered hn
    omega
  have hempty {works : List Work} (hw : Whole s.invocation f'.entered s.performed works) :
      ofBatch s.invocation f'.entered works = [] := by
    rcases hw with hw | hw
    · exact hw
    · rw [hw, hnone]
  refine ⟨h.past, h.undivided, ?_, ?_⟩
  · intro w hw hk n hn
    have hle := h.bound w hw hk n hn
    omega
  · intro _ hb
    have hwhole := h.undivided _ _ hb
    exact ⟨hempty hwhole.db, fun t ht => (hempty (hwhole.working t ht)).trans hnone.symm⟩

variable {env : Env}

/-- A call that is let through within a batch finds the transaction open. -/
theorem wp_admitCall {operation : String} (h : At f l s) :
    wp (serve env.adapter) Confined Seen (admitCall env operation)
      (fun r l' s' => At f l' s' ∧ (r = .ok () → f.inBatch = true → s'.txn.isSome = true)) l s := by
  have hfailed {e : Exc} {l : Local} (h : At f l s) :
      At f l s ∧ ((.error e : Except Exc Unit) = .ok () → f.inBatch = true → s.txn.isSome = true) :=
        ⟨h, fun h => by cases h⟩
  refine (wp_bind _ _).2 (wp_checkLatch.2 ?_)
  cases hlatch : l.latch.error with
  | some e => exact hfailed h
  | none =>
      refine (wp_bind _ _).2 ((wp_get _).2 ((wp_ite _ _ _).2 ?_))
      split
      · have hseen : Seen ⟨.status, l⟩ s := ⟨h.2.past, h.2.undivided, fun hi => by cases hi⟩
        refine (wp_bind _ _).2 (wp_perform_bind hseen (fun o status _ hr => ?_) fun o e _ hr => by cases hr)
        cases hr
        refine (wp_ite _ _ _).2 ?_
        split
        · next hopen => exact ⟨h, fun _ _ => isSome_of_status hopen⟩
        · cases env.adapter with
          | sqlite => exact hfailed ⟨h.1, h.2⟩
          | postgres => exact hfailed ⟨h.1, h.2⟩
          | oracle => exact hfailed ⟨h.1, h.2⟩
      · next hb =>
          refine ⟨h, fun _ hin => ?_⟩
          rw [h.1, hin] at hb
          exact absurd rfl hb

theorem wp_guarded_at {g : Guard} {m : Run α} (h : At f l s)
    (hm : wp (serve adapter) Confined Seen m (fun _ l' s' => At f l' s') l s) :
    wp (serve adapter) Confined Seen (guarded adapter g m) (fun _ l' s' => At f l' s') l s := by
  apply (wp_guarded adapter g m).2
  cases l.latch.error with
  | some e => exact h
  | none =>
      apply wp_mono hm
      intro r l' s' h'
      cases r with
      | ok a => exact h'
      | error e =>
          dsimp only
          rcases guardOutcome_cases adapter g e l' with hg | ⟨-, -, hg⟩ <;> rw [hg]
          · exact h'
          · exact ⟨h'.1, h'.2⟩

theorem steps_of_verb {verb : Verb} (hv : verb ≠ .ddl) :
    statementSteps adapter verb o = o.steps ∧ ∀ step ∈ keptSteps adapter verb o, step ∈ o.steps := by
  have hsteps : statementSteps adapter verb o = o.steps := by
    unfold statementSteps
    rw [if_neg fun h => hv h.1]
  refine ⟨hsteps, ?_⟩
  intro step hs
  unfold keptSteps at hs
  rw [hsteps] at hs
  split at hs
  · exact hs
  · exact mem_settledSteps hs

theorem Live.statement {owner sql : String} {verb : Verb} {commitCapable : Bool} (hv : verb ≠ .ddl)
    (ha : Confined ⟨.statement ⟨owner, f.block⟩ verb sql commitCapable, l⟩ s o)
    (ht : f.inBatch = true → s.txn.isSome = true) (h : Live f s) :
    Live f (serve adapter ⟨.statement ⟨owner, f.block⟩ verb sql commitCapable, l⟩ o s).2 := by
  cases hf : f.inBatch with
  | false =>
      apply h.outside hf
      · exact if_neg (by simp [hf])
      · exact fun _ _ h => by cases h
  | true =>
      have hblock : f.block = some f.entered := if_pos hf
      have hsteps : ∀ step ∈ o.steps, step ≠ .rollback ∧ (s.aborted = true → step.isWrite = true) := by
        apply ha _ _ _ _ rfl
        rw [hblock]
        rfl
      have hverb : statementSteps adapter verb o = o.steps ∧ ∀ step ∈ keptSteps adapter verb o, step ∈ o.steps :=
        steps_of_verb hv
      obtain ⟨hrun, hkept⟩ := hverb
      refine submit_keeps (J := Live f) h (fun h => ?_) (fun h => ?_) fun _ h => h.ebb ebbs_fail
      · rw [hrun]
        exact h.steps_inside hf hblock (ht hf) o.steps hsteps
      · exact h.steps_inside hf hblock (ht hf) _ fun step hs => hsteps step (hkept step hs)

theorem wp_runStatement {verb : Verb} {sql operation : String} (hv : verb ≠ .ddl) (h : At f l s)
    (ht : f.inBatch = true → s.txn.isSome = true) :
    wp (serve env.adapter) Confined Seen (runStatement env verb sql operation) (fun _ l' s' => At f l' s') l s := by
  refine (wp_bind _ _).2 ((wp_get _).2 ?_)
  rw [h.1]
  apply wp_guarded_at h
  refine wp_perform.2 ⟨⟨h.2.past, h.2.undivided, fun hi => ht ?_⟩, fun o ho => ⟨h.1, h.2.statement hv ho ht⟩⟩
  have hblock : f.block.isSome = true := hi
  unfold Facade.block at hblock
  split at hblock
  · next hf => exact hf
  · cases hblock

theorem wp_prepare {sql operation : String} (h : At f l s) :
    wp (serve env.adapter) Confined Seen (prepare env sql operation)
      (fun r l' s' => At f l' s' ∧ (r = .ok () → f.inBatch = true → s'.txn.isSome = true)) l s := by
  apply (wp_bind _ _).2
  apply wp_mono (wp_admitCall h)
  rintro r l' s' ⟨h', ht⟩
  cases r with
  | error e => exact ⟨h', fun h => by cases h⟩
  | ok u =>
      have hrefuse (e : Option TextError) : wp (serve env.adapter) Confined Seen (refuse e)
          (fun r l' s' => At f l' s' ∧ (r = .ok () → f.inBatch = true → s'.txn.isSome = true)) l' s' := by
        cases e with
        | none => exact ⟨h', fun _ => ht rfl⟩
        | some e => exact ⟨h', fun h => by cases h⟩
      exact (wp_bind _ _).2 ((wp_get _).2 (hrefuse _))

theorem maintains_prepared {sql operation : String} {m : Run α}
    (hm : ∀ l s, At f l s → (f.inBatch = true → s.txn.isSome = true) →
      wp (serve env.adapter) Confined Seen m (fun _ l' s' => At f l' s') l s) :
    Maintains (serve env.adapter) Confined Seen (At f) (prepare env sql operation >>= fun _ => m) := by
  intro l s h
  apply (wp_bind _ _).2
  apply wp_mono (wp_prepare h)
  rintro r l' s' ⟨h', ht⟩
  cases r with
  | error e => exact h'
  | ok u => exact hm l' s' h' (ht rfl)

theorem Live.progressSet {owner key value : String} (hf : f.inBatch = true) (ht : s.txn.isSome = true) (h : Live f s) :
    Live f (serve adapter ⟨.progressSet ⟨owner, f.block⟩ key value, l⟩ o s).2 := by
  refine submit_keeps (J := Live f) h (fun h => ?_) (fun h => h) fun _ h => h.ebb ebbs_fail
  unfold World.setProgress
  split
  · exact h.record_inside hf ⟨rfl, if_pos hf⟩ ht rfl
  · exact h

theorem wp_raiseIf_bind {e : Option Migr8Error} {m : Run α} (h : At f l s)
    (hm : wp (serve adapter) Confined Seen m (fun _ l' s' => At f l' s') l s) :
    wp (serve adapter) Confined Seen (raiseIf e >>= fun _ => m) (fun _ l' s' => At f l' s') l s := by
  cases e with
  | none => exact hm
  | some e => exact h

theorem wp_progressSet {owner key value : String} (hf : f.inBatch = true) (ht : s.txn.isSome = true) (h : At f l s) :
    wp (serve env.adapter) Confined Seen (progressSet env.config ⟨owner, f.block⟩ key value)
    (fun _ l' s' => At f l' s') l s := by
  refine (wp_bind _ _).2 ((wp_get _).2 ((wp_ite _ _ _).2 ?_))
  split
  · apply wp_guarded_at h
    refine wp_perform.2 ⟨⟨h.2.past, h.2.undivided, fun _ => ht⟩, fun o _ => ?_⟩
    exact ⟨h.1, h.2.progressSet hf ht⟩
  · exact h

theorem maintains_setProgress (key value : String) :
    Maintains (serve env.adapter) Confined Seen (At f) (Context.setProgress env key value) := by
  intro l s h
  apply (wp_bind _ _).2
  apply wp_mono (wp_admitCall h)
  rintro r l₁ s₁ ⟨h₁, ht⟩
  cases r with
  | error e => exact h₁
  | ok u =>
      apply wp_raiseIf_bind h₁
      apply wp_raiseIf_bind h₁
      refine (wp_bind _ _).2 ((wp_get _).2 ((wp_ite _ _ _).2 ?_))
      split
      · next hin =>
          rw [h₁.1] at hin ⊢
          apply (wp_bind _ _).2
          apply wp_mono (wp_guarded_at h₁ (wp_progressSet hin (ht rfl hin) h₁))
          intro r l₂ s₂ h₂
          cases r with
          | error e => exact h₂
          | ok u => exact h₂
      · exact h₁

theorem maintains_enterBatch (batch : Nat) :
    Maintains (serve env.adapter) Confined Seen Running (enterBatch env batch) := by
  intro l s h
  cases hf : l.facade.inBatch with
  | true =>
      refine (wp_bind _ _).2 (wp_checkLatch.2 ?_)
      cases l.latch.error with
      | some e => exact h
      | none =>
          refine (wp_bind _ _).2 ((wp_get _).2 ((wp_ite _ _ _).2 ?_))
          rw [if_pos hf]
          exact h
  | false =>
      have hkept : Kept env.adapter Confined Seen (At l.facade) _ := kept_outside hf
      have hopened (identity : Identity) (l' : Local) (s' : Session) (h' : At l.facade l' s') :
          wp (serve env.adapter) Confined Seen (openBatch batch identity) (fun _ l s => Running l s) l' s' := by
        apply (wp_modify _).2
        exact Live.entered h'.2 (congrArg (fun (f : Facade) => f.entered + 1) h'.1)
      have hweak (l' : Local) (s' : Session) (h' : At l.facade l' s') : Running l' s' := by
        unfold Running
        rw [h'.1]
        exact h'.2
      have hbegin : Maintains (serve env.adapter) Confined Seen (At l.facade) (do
          begin env.adapter
          (establishTransactionIdentity env.adapter).tryCatch fun e => do
            onlyIf (e.kind? ≠ some .unknownOutcome && e.isException) (rollbackBatch env)
            Proc.throw e) :=
        .bind (hkept.begin txn_outside) fun _ => .tryCatch (hkept.establishTransactionIdentity txn_outside) fun e =>
          .bind (maintains_onlyIf _ (hkept.rollbackBatch env rfl txn_outside)) fun _ => .throw e
      refine (wp_bind _ _).2 (wp_checkLatch.2 ?_)
      cases l.latch.error with
      | some e => exact h
      | none =>
          refine (wp_bind _ _).2 ((wp_get _).2 ((wp_ite _ _ _).2 ?_))
          rw [if_neg (by rw [hf]; decide)]
          apply (wp_bind _ _).2
          apply wp_mono (hkept.hasOpenTransaction txn_outside l s ⟨rfl, h⟩)
          intro r l₁ s₁ h₁
          cases r with
          | error e => exact hweak l₁ s₁ h₁
          | ok opened =>
              apply (wp_ite _ _ _).2
              split
              · exact hweak l₁ s₁ h₁
              · apply (wp_bind _ _).2
                apply wp_mono ((wp_bind _ _).1 (hbegin l₁ s₁ h₁))
                intro r l₂ s₂ h₂
                cases r with
                | error e => exact hweak l₂ s₂ h₂
                | ok u =>
                    apply (wp_bind _ _).2
                    apply wp_mono h₂
                    intro r l₃ s₃ h₃
                    cases r with
                    | error e => exact hweak l₃ s₃ h₃
                    | ok identity => exact hopened identity l₃ s₃ h₃

theorem maintains_exitBatch (established : Option Identity) (failed : Bool) :
    Maintains (serve env.adapter) Confined Seen Running (exitBatch env established failed) := by
  intro l s h
  refine (wp_bind _ _).2 ((wp_modify _).2 ?_)
  have hkept : Kept env.adapter Confined Seen (At { l.facade with inBatch := false, openBatch := none }) _ :=
    kept_outside rfl
  have hclosed : Live { l.facade with inBatch := false, openBatch := none } s := Live.closed h rfl rfl
  have hfinish := hkept.finishBatch env rfl txn_outside ⟨trivial, fun _ _ h => by cases h⟩ established failed
  apply wp_mono (hfinish _ s ⟨rfl, hclosed⟩)
  intro r l' s' h'
  unfold Running
  rw [h'.1]
  exact h'.2

theorem maintains_ddl (sql : String) : Maintains (serve env.adapter) Confined Seen Running (Context.ddl env sql) := by
  intro l s h
  refine (wp_bind _ _).2 (wp_checkLatch.2 ?_)
  cases l.latch.error with
  | some e => exact h
  | none =>
      refine (wp_bind _ _).2 ((wp_get _).2 ((wp_ite _ _ _).2 ?_))
      split
      · exact h
      · next hf =>
          have hkept : Kept env.adapter Confined Seen (At l.facade) _ := kept_outside (by simpa using hf)
          have hrun : Maintains (serve env.adapter) Confined Seen (At l.facade) (do
              refuse (env.texts.admitDdl sql)
              if ← hasOpenTransaction env.adapter then
                raise (usage ("ctx.ddl() requires no open transaction: the engine will not use a pre-DDL " ++
                  "implicit commit to flush unrelated pending work") (some env.unit.id))
              else
                guarded env.adapter
                  { operation := "DDL execution"
                    phase := "restartable_ddl"
                    migrationId := some env.unit.id
                    commitCapable := true }
                  (executeDdl env.adapter ⟨env.unit.id, none⟩ sql (env.texts.isConcurrent sql))) :=
            .bind (maintains_refuse _) fun _ => .bind (hkept.hasOpenTransaction txn_outside) fun _ => .ite (.throw _)
              (hkept.guarded
              (hkept.executeDdl txn_outside ⟨rfl, fun _ _ h => by cases h⟩ ⟨trivial, fun _ _ h => by cases h⟩))
          apply wp_mono (hrun l s ⟨rfl, h⟩)
          intro r l' s' h'
          unfold Running
          rw [h'.1]
          exact h'.2

theorem maintains_sqlFile (path : String) : Maintains (serve env.adapter) Confined Seen (At f) (sqlFile env path) :=
  .bind (kept_aside.admitCall env rfl (.inl rfl) _) fun _ => .bind (maintains_liftText _) fun _ => .pure _

theorem maintains_getProgress (key : String) :
    Maintains (serve env.adapter) Confined Seen (At f) (getProgress env key) := by
  refine .bind (kept_aside.admitCall env rfl (.inl rfl) _) fun _ => .bind (maintains_raiseIf _) fun _ => ?_
  exact .bind (kept_aside.guarded (kept_aside.exec rfl (.inl rfl))) fun _ => .pure _

theorem maintains_transaction : Maintains (serve adapter) Confined Seen Running transaction :=
  .bind maintains_checkLatch fun _ => .bind (.get _) fun _ =>
  .bind (.modify fun _ _ h => Live.congr h rfl rfl) fun _ => .pure _

theorem maintains_restartable {J : Local → Session → Prop} {m : Run α} {e : Exc}
    (hm : Maintains (serve adapter) Confined Seen J m) :
    Maintains (serve adapter) Confined Seen J (if env.unit.mode = .restartable then m else Proc.throw e) :=
  .ite hm (.throw e)

theorem maintains_onBatch {batch : Nat} {m : Option Identity → Run Unit}
    (hm : ∀ i, Maintains (serve adapter) Confined Seen Running (m i)) :
    Maintains (serve adapter) Confined Seen Running (onBatch batch m) := by
  apply Maintains.bind (.get _)
  intro i
  cases i with
  | none => exact .throw _
  | some i => exact hm i

theorem maintains_answer (call : Call) : Maintains (serve env.adapter) Confined Seen Running (answer env call) := by
  have hnone {m : Run Unit} (hm : Maintains (serve env.adapter) Confined Seen Running m) :
      Maintains (serve env.adapter) Confined Seen Running (restartableOnly env m) :=
    maintains_restartable (.bind hm fun _ => .pure _)
  cases call with
  | execute sql => exact maintains_running fun f => maintains_prepared fun l s h ht => wp_runStatement (by decide) h ht
  | query sql => exact maintains_running fun f => maintains_prepared fun l s h ht => wp_runStatement (by decide) h ht
  | executemany sql sets =>
      refine maintains_running fun f => maintains_prepared fun l s h ht => (wp_ite _ _ _).2 ?_
      split
      · exact h
      · exact wp_runStatement (by decide) h ht
  | sql path => exact maintains_running fun f => maintains_sqlFile path
  | log message => exact maintains_running fun f => .bind (kept_aside.perform (.inr ⟨_, _, rfl⟩)) fun _ => .pure _
  | progressGet key => exact maintains_restartable (maintains_running fun f => maintains_getProgress key)
  | progressSet key value => exact maintains_restartable (maintains_running fun f => maintains_setProgress key value)
  | transaction => exact maintains_restartable maintains_transaction
  | enter batch => exact hnone (maintains_onBatch fun _ => maintains_enterBatch batch)
  | exit batch failed => exact hnone (maintains_onBatch fun i => maintains_exitBatch i failed)
  | ddl sql => exact hnone (maintains_ddl sql)

/-- The induction is on the program, one call after the other. -/
theorem maintains_runProgram (program : Program) :
    Maintains (serve env.adapter) Confined Seen Running (runProgram env program) := by
  induction program with
  | ret value => exact .pure value
  | raise e => exact .throw e
  | call c next ih =>
      refine .bind (maintains_answer c).attempt fun r => .bind ?_ fun _ => ih r
      exact maintains_running fun f => kept_aside.perform (.inl rfl)

end Programs

section Units

def Sound (s : Session) : Prop := Past s ∧ Undivided s

theorem kept_sound : Kept adapter Confined Seen (fun _ s => Sound s) outside where
  seen := by
    intro op l s hop hs
    refine ⟨hs.1, hs.2, fun hi => ?_⟩
    cases op <;> try cases hi
    case statement scope verb sql commitCapable =>
      have hnone : scope.block = none := hop
      simp only [inside, hnone] at hi
      cases hi
    case progressSet => exact hop.elim
  step := fun op l s o hop _ hs => ⟨hs.1.serve, hs.2.serve hop⟩
  state := fun l l' s _ hs => hs

theorem outside_of_txnOp (op : Op) (h : txnOp op = true) : outside op := (txn_outside op h).1

theorem maintains_invokeSql (hf : f.inBatch = false) :
    Maintains (serve input.adapter) Confined Seen (At f) (invokeSql input unit) := by
  have hkept : Kept input.adapter Confined Seen (At f) _ := kept_outside hf
  apply Maintains.bind (maintains_admitSqlEntry _)
  intro admitted
  cases admitted.category with
  | atomicStatement =>
      exact .bind (hkept.guarded (hkept.perform ⟨rfl, fun _ _ h => by cases h⟩)) fun _ => .pure _
  | restartableProcedural =>
      exact .bind (hkept.guarded (hkept.perform ⟨rfl, fun _ _ h => by cases h⟩)) fun _ => .pure _
  | restartableDdl =>
      exact .bind (hkept.hasOpenTransaction txn_outside) fun _ => .ite (.throw _)
        (hkept.guarded (hkept.executeDdl txn_outside ⟨rfl, fun _ _ h => by cases h⟩ ⟨trivial, fun _ _ h => by cases h⟩))

theorem maintains_invokePython (attempt : Option Int) :
    Maintains (serve input.adapter) Confined Seen Running (invokePython input unit attempt) := by
  unfold invokePython
  cases input.loadEntry unit with
  | error e => exact .throw e
  | ok migrate =>
      have hprogram : Maintains (serve (input.env unit).adapter) Confined Seen Running
          (runProgram (input.env unit) (migrate attempt)) := maintains_runProgram _
      apply hprogram.bind
      intro value
      exact maintains_checkResult _ _

theorem Sound.invoked (h : Sound s) : Live {} { s with invocation := s.invocation + 1 } := by
  refine ⟨fun w hw => Nat.le_succ_of_le (h.1 w hw), fun k n hb => ⟨(h.2 k n hb).db, (h.2 k n hb).working⟩, ?_, ?_⟩
  · intro w hw hk
    have hle := h.1 w hw
    have hk : w.invocation = s.invocation + 1 := hk
    omega
  · exact fun hf => by cases hf

/-- The code has a context of its own, and what it leaves behind is in order. -/
theorem maintains_invoke (attempt : Option Int) :
    Maintains (serve input.adapter) Confined Seen (fun _ s => Sound s) (invoke input unit attempt) := by
  have hentry (l : Local) (s : Session) (hl : l.facade.inBatch = false) (h : Running l s) :
      wp (serve input.adapter) Confined Seen (invokeEntry input unit attempt) (fun _ l' s' => Running l' s') l s := by
    unfold invokeEntry
    cases unit.language with
    | python => exact maintains_invokePython attempt l s h
    | sql =>
        apply wp_mono (maintains_invokeSql hl l s ⟨rfl, h⟩)
        intro r l' s' h'
        unfold Running
        rw [h'.1]
        exact h'.2
  intro l s h
  refine (wp_bind _ _).2
    ((wp_modify _).2
    (wp_perform_bind ⟨h.1, h.2, fun hi => by cases hi⟩ (fun o u _ hr => ?_) fun o e _ hr => by cases hr))
  apply (wp_bind _ _).2
  apply (wp_attempt _).2
  apply wp_mono (hentry { l with facade := {} } { s with invocation := s.invocation + 1 } rfl h.invoked)
  intro r l₁ s₁ h₁
  refine wp_perform_bind
    ⟨Live.past h₁, Live.undivided h₁, fun hi => by cases hi⟩ (fun o u _ hr => ?_) fun o e _ hr => by cases hr
  cases r with
  | ok u => exact ⟨Live.past h₁, Live.undivided h₁⟩
  | error e => exact ⟨Live.past h₁, Live.undivided h₁⟩

theorem outside_of_stepOp (op : Op) (h : StepOp unit op) (_ : ∀ id, op ≠ .deleteProgress id) : outside op := by
  cases op <;> first | exact h.elim | trivial

theorem maintains_runUnit (active : Option HistoryRow) (unit : CapturedUnit) :
    Maintains (serve input.adapter) Confined Seen (fun _ s => Sound s) (runUnit input active unit) := by
  have hkept : Kept input.adapter Confined Seen (fun _ s => Sound s) outside := kept_sound
  unfold runUnit
  split
  · exact hkept.runAtomic outside_of_txnOp outside_of_stepOp (maintains_invoke none)
  · exact hkept.runRestartable outside_of_txnOp outside_of_stepOp trivial maintains_invoke (fun _ _ h => h)
      (hkept.completeActiveRow outside_of_txnOp outside_of_stepOp trivial) _

theorem passes_sound : Passes input Confined Seen Sound Sound where
  between := by
    apply kept_sound.weaken
    intro op hop
    rcases hop with hop | hop | ⟨event, id, rfl⟩
    · cases op <;> trivial
    · cases op <;> trivial
    · trivial
  closing := by
    apply kept_sound.weaken
    intro op hop
    cases op <;> trivial
  always := fun _ h => h
  unit := by
    intro active _ unit _ _ l s _ _ hs
    exact wp_mono (maintains_runUnit active unit l s hs) fun _ _ _ h => ⟨h, fun _ => h⟩

end Units

section Runs

/-- Runs, each cut anywhere, in which every statement within a batch is confined. -/
inductive Confinedly (adapter : Adapter) (s : Session) : Session → Prop
  | refl : Confinedly adapter s s
  | run {s' : Session} (input : Input) (ha : input.adapter = adapter) (os : List Outcome)
      (hc : ∀ x ∈ trace (serve adapter) os (Engine.run input {}) s'.afresh, Confined x.request x.before x.outcome)
      (h : Confinedly adapter s s') :
      Confinedly adapter s (final (serve adapter) os (Engine.run input {}) s'.afresh)

theorem Sound.afresh (h : Sound s) : Sound s.afresh := ⟨h.1, h.2.afresh⟩

theorem run_sound (h : Sound s) {os : List Outcome}
    (hc : ∀ x ∈ trace (serve input.adapter) os (Engine.run input {}) s.afresh, Confined x.request x.before x.outcome) :
    (∀ x ∈ trace (serve input.adapter) os (Engine.run input {}) s.afresh, Seen x.request x.before) ∧
      Sound (final (serve input.adapter) os (Engine.run input {}) s.afresh) := by
  have hwp : wp (serve input.adapter) Confined Seen (Engine.run input) _ {} s.afresh := passes_sound.run rfl h.afresh
  exact ⟨(play_wp hwp os hc).1, final_wp hwp os hc (fun _ _ h => ⟨h.past, h.undivided⟩) fun _ _ h => h⟩

theorem Confinedly.sound (h : Confinedly adapter s s') (hs : Sound s) : Sound s' := by
  induction h with
  | refl => exact hs
  | run input ha os hc h ih =>
      subst ha
      exact (run_sound ih hc).2

/-- However many runs there are, and wherever they are cut: of a batch the database
has all that was ever written in it, checkpoints included, or nothing, unless one of
its own statements has committed the transaction underneath it; and whatever is
written in a batch finds a transaction open. -/
theorem batches_whole (hs : Sound s) (h : Confinedly adapter s s') :
    (∀ k n, (k, some n) ∉ s'.broken → ofBatch k n s'.db.data = [] ∨ ofBatch k n s'.db.data = ofBatch k n s'.performed) ∧
      ∀ input : Input, input.adapter = adapter → ∀ os,
        (∀ x ∈ trace (serve adapter) os (Engine.run input {}) s'.afresh, Confined x.request x.before x.outcome) →
        ∀ x ∈ trace (serve adapter) os (Engine.run input {}) s'.afresh, inside x.request.op = true →
          x.before.txn.isSome = true := by
  have hsound := h.sound hs
  refine ⟨fun k n hb => (hsound.2 k n hb).db, ?_⟩
  intro input ha os hc x hx hi
  subst ha
  exact ((run_sound hsound hc).1 x hx).owned hi

section Example

/-- A batch of one statement and one checkpoint. -/
def batchRun : Input :=
  soleRun .sqlite .restartable
    (.call .transaction fun _ => .call (.enter 0) fun _ => .call (.execute "insert") fun _ =>
      .call (.progressSet "done" "1") fun _ => .call (.exit 0 false) fun _ => .ret .nothing)

def batchWrites (n : Nat) : List Outcome := List.replicate n { now := 1, steps := [.write "row"] }

def diedInBatch : Session :=
  final (serve .sqlite) (batchWrites 45) (Engine.run batchRun {}) (newNamespace .sqlite).afresh

def rerunBatch : Session := final (serve .sqlite) (batchWrites 75) (Engine.run batchRun {}) diedInBatch.afresh

theorem batchWrites_confined (m : Nat) (q : Request) (s : Session) : ∀ o ∈ batchWrites m, Confined q s o := by
  intro o ho scope verb sql commitCapable _ _ step hstep
  rw [(List.mem_replicate.1 ho).2] at hstep
  rw [List.mem_singleton.1 hstep]
  exact ⟨by decide, fun _ => rfl⟩

theorem batches_whole_rerunBatch : diedInBatch.performed.length = 2 ∧ diedInBatch.db.data = [] ∧
    (ofBatch 2 1 rerunBatch.db.data).length = 2 ∧
    (ofBatch 1 1 rerunBatch.db.data = [] ∨ ofBatch 1 1 rerunBatch.db.data = ofBatch 1 1 rerunBatch.performed) := by
  have hconfined : Confinedly .sqlite (newNamespace .sqlite) rerunBatch := by
    refine .run batchRun rfl (batchWrites 75) ?_ (.run batchRun rfl (batchWrites 45) ?_ .refl)
    · exact fun x hx => batchWrites_confined 75 _ _ _ (Lib.Interaction.outcome_mem hx)
    · exact fun x hx => batchWrites_confined 45 _ _ _ (Lib.Interaction.outcome_mem hx)
  have hsound : Sound (newNamespace .sqlite) :=
    ⟨fun w hw => absurd hw List.not_mem_nil, fun k n _ => Holds.of_none (.inl rfl) rfl⟩
  exact ⟨by decide +kernel, by decide +kernel, by decide +kernel,
    (batches_whole hsound hconfined).1 1 1 (by decide +kernel)⟩

end Example

end Runs

end Migr8.Batches
