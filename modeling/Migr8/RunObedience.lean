import Migr8.Teardown

namespace Migr8.RunObedience

open Errors Model Latch Driver Database World Adapters Metadata Context Engine Rules Discipline Obedience
open EngineObedience Teardown Lib.Process
open Lib.Interaction (Exchange trace result echo)

variable {K : Op → Prop} {α : Type} {input : Input}

section Open

variable (hK : ∀ op, serviceOp op = true → K op)

include hK

omit hK in
theorem Steady.preflight {V : Type} {view : Local → V} {pre : LatchState → Prop} (units : List CapturedUnit) :
    Steady input.adapter K view pre (preflight input units) := by
  induction units with
  | nil => exact Steady.pure ()
  | cons unit units ih =>
      refine Steady.bind (Steady.bind ?_ fun _ => ?_) fun _ => ih
      · exact Steady.ite (Steady.refuse _) (Steady.ite (Steady.pure ()) (Steady.throw _))
      · split
        · exact (Steady.admitSqlEntry _).bind fun _ => Steady.pure _
        · exact Steady.liftText _

theorem Steady.acquireLock : Steady input.adapter K standing isOpen (acquireLock input.adapter) := by
  refine Steady.bind (Steady.tryCatch (Steady.perform_open (hK _ rfl)) fun e => ?_) fun _ => ?_
  · exact Steady.ite (Steady.throw _) (Steady.throw _)
  · exact Steady.modify fun _ => ⟨rfl, rfl⟩

theorem Steady.prepareStorage : Steady input.adapter K standing isOpen (prepareStorage input.adapter) := by
  have hp : Steady input.adapter K standing isOpen (World.perform .prepareStorage) :=
    Steady.perform_open (hK _ rfl)
  unfold Adapters.prepareStorage
  split
  · next ha => exact hp.tryCatch fun _ => Steady.ite (Steady.throw _) (Steady.throw _)
  · exact Steady.pure ()

omit hK in
theorem Steady.liftError {V : Type} {view : Local → V} {pre : LatchState → Prop} (r : Except Migr8Error α) :
    Steady input.adapter K view pre (liftError r) := by
  cases r
  · exact Steady.throw _
  · exact Steady.pure _

theorem Obeys.completeInitialization : Obeys input.adapter K isOpen (completeInitialization input) := by
  refine Obeys.weaken (Obeys.bind (Obeys.initializeMetadata hK) fun _ => ?_) fun _ _ => trivial
  refine Obeys.weaken (Obeys.bind (Obeys.inspectMetadata hK) fun report => ?_) fun _ _ => trivial
  exact Obeys.ite (Obeys.of_steady (Steady.pure _)) (Obeys.raise _)

theorem Obeys.initializeIfNeeded (report : MetadataReport) :
    Obeys input.adapter K isOpen (initializeIfNeeded input report) := by
  refine Obeys.bind ?_ fun _ => Obeys.of_steady (Steady.liftError _)
  unfold completed
  split
  · exact Obeys.raise _
  · exact Obeys.completeInitialization hK
  · exact Obeys.completeInitialization hK
  · exact Obeys.of_steady (Steady.pure _)

/-- What a run does once it holds a connection and before it reads the history. -/
theorem Obeys.afterConnect : Obeys input.adapter K isOpen (do
    World.perform (.log "connected")
    Adapters.acquireLock input.adapter
    World.perform (.log "lock_acquired")
    let metadata ← inspectMetadata input.config
    admitRecoveryNamespace input metadata
    Adapters.prepareStorage input.adapter
    Engine.initializeIfNeeded input metadata) := by
  have hl (event : String) : Steady input.adapter K standing isOpen (World.perform (.log event)) :=
    Steady.perform_open (hK _ rfl)
  refine Obeys.bind_steady (hl _) fun _ => Obeys.bind_steady (Steady.acquireLock hK) fun _ => ?_
  refine Obeys.bind_steady (hl _) fun _ => ?_
  refine Obeys.weaken (Obeys.bind (Obeys.inspectMetadata hK) fun metadata => ?_) fun _ _ => trivial
  refine Obeys.bind_steady ?_ fun _ => Obeys.bind_steady (Steady.prepareStorage hK) fun _ => ?_
  · unfold admitRecoveryNamespace
    split
    · exact Steady.pure ()
    · exact Steady.pure ()
    · exact Steady.throw _
    · exact Steady.throw _
  · exact Obeys.initializeIfNeeded hK metadata

end Open

/-- The latch is set only while the run holds a connection, and a run that gets
through holds one. -/
structure Opened (r : Except Exc α) (l l' : Local) : Prop where
  unrecorded : outcome l' = outcome l
  held : l'.latch.state ≠ .open ∨ (∃ a, r = .ok a) → l'.connected = true ∧ l'.connectionHeld = true

theorem Opened.onward {β : Type} {a : α} {r : Except Exc β} {l l' l'' : Local} (h : Opened (.ok a) l l')
    (h' : Onward l' l'') : Opened r l l'' := by
  have hs : outcome l'' = outcome l' ∧ l''.connected = l'.connected ∧ l''.connectionHeld = l'.connectionHeld := by
    have := h'.standing
    simpa only [standing, Prod.mk.injEq] using this
  obtain ⟨ho, hc, hh⟩ := hs
  refine ⟨ho.trans h.unrecorded, fun _ => ?_⟩
  rw [hc, hh]
  exact h.held (.inr ⟨a, rfl⟩)

theorem Opened.refused {l l' : Local} (e : Exc) (hl : l.latch.state = .open) (hs : Same outcome l l') :
    Told (.error e : Except Exc α) l'.latch ∧ Opened (.error e : Except Exc α) l l' := by
  have ho := hs.isOpen hl
  refine ⟨fun h => absurd ho h, hs.view, ?_⟩
  rintro (h | ⟨a, ⟨⟩⟩)
  exact absurd ho h

theorem Safe.openNamespace (hK : ∀ op, serviceOp op = true → K op) (l : Local) (c : RunLatch)
    (hc : Later c l.latch) (hl : l.latch.state = .open) :
    Safe input.adapter K (openNamespace input) (fun r l' c' =>
      Later c' l'.latch ∧ Told r l'.latch ∧ Opened r l l') l c := by
  have hstart : Steady input.adapter K outcome isOpen (World.modify fun l => { l with started := true }) :=
    Steady.modify fun _ => ⟨rfl, rfl⟩
  have hpre : Steady input.adapter K outcome isOpen (preflight input input.capture.units) := Steady.preflight _
  have hlog : Steady input.adapter K outcome isOpen (World.perform (.log "preflight_passed")) :=
    Steady.perform_open (hK _ rfl)
  have hcon : Steady input.adapter K outcome isOpen (World.perform .connect) := Steady.perform_open (hK _ rfl)
  refine (wp_bind _ _).2 (wp_mono (hstart l c hc hl) ?_)
  rintro (e | u) l₁ c₁ ⟨hc₁, hs₁⟩
  · exact ⟨hc₁, Opened.refused e hl hs₁⟩
  refine (wp_bind _ _).2 (wp_mono (hpre l₁ c₁ hc₁ (hs₁.isOpen hl)) ?_)
  rintro (e | u) l₂ c₂ ⟨hc₂, hs₂⟩
  · exact ⟨hc₂, Opened.refused e hl (hs₁.trans hs₂)⟩
  replace hs₂ := hs₁.trans hs₂
  refine (wp_bind _ _).2 (wp_mono (hlog l₂ c₂ hc₂ (hs₂.isOpen hl)) ?_)
  rintro (e | u) l₃ c₃ ⟨hc₃, hs₃⟩
  · exact ⟨hc₃, Opened.refused e hl (hs₂.trans hs₃)⟩
  replace hs₃ := hs₂.trans hs₃
  refine (wp_bind _ _).2 ((wp_bind _ _).2 (wp_mono (hcon l₃ c₃ hc₃ (hs₃.isOpen hl)) ?_))
  rintro (e | u) l₄ c₄ ⟨hc₄, hs₄⟩
  · exact ⟨hc₄, Opened.refused e hl (hs₃.trans hs₄)⟩
  replace hs₄ := hs₃.trans hs₄
  refine (wp_modify _).2 ((wp_bind _ _).2 ((wp_modify _).2 ?_))
  refine wp_mono (Obeys.afterConnect hK _ c₄ hc₄ (hs₄.isOpen hl)) ?_
  rintro r l₅ c₅ ⟨hc₅, hw, ht⟩
  refine ⟨hc₅, ht, Opened.onward (a := ()) ?_ hw⟩
  exact ⟨hs₄.view, fun _ => ⟨rfl, rfl⟩⟩

theorem Obeys.buildPlan (hS : ∀ op, snapshotOp op = true → K op) : Obeys input.adapter K any (buildPlan input) := by
  refine (Obeys.readSnapshot hS).bind fun snapshot => Obeys.bind_steady (Steady.liftError _) fun plan => ?_
  exact Obeys.bind_steady (Steady.liftError _) fun _ => Obeys.of_steady (Steady.pure _)

section Rules

variable {O S : Type} {serve : (q : Request) → O → S → Reply q × S} {A : Request → S → O → Prop}
  {I : Request → S → Prop} {P : Except Exc Report → Local → S → Prop} {l : Local} {s : S}

theorem wp_settling {m : Run Report} :
    wp serve A I (settling input m) P l s ↔
      wp serve A I m (fun r => wp serve A I (settling input fun l => .done (r, l)) P) l s := by
  refine (wp_tryCatch _ _).trans (iff_of_eq (congrArg (fun P => wp serve A I m P l s) ?_))
  funext r l s
  cases r <;> rfl

/-- A run is its first log line, `migrate`, and an end that sees how that went. -/
theorem wp_run :
    wp serve A I (Engine.run input) P l s ↔
      wp serve A I (World.perform (.log "run_start")) (fun r l s => match r with
        | .ok _ => wp serve A I (Engine.migrate input)
            (fun r => wp serve A I (settling input (conclude input r)) P) l s
        | .error e => wp serve A I (settling input (Proc.throw e)) P l s) l s := by
  refine wp_settling.trans ((wp_bind _ _).trans (iff_of_eq (congrArg (fun P => wp serve A I _ P l s) ?_)))
  funext r l s
  cases r with
  | error e => rfl
  | ok u =>
      refine propext ((wp_bind _ _).trans ((wp_attempt _).trans ?_))
      refine iff_of_eq (congrArg (fun P => wp serve A I _ P l s) ?_)
      funext r l s
      exact propext wp_settling.symm

end Rules

section End

variable (hK : ∀ op, closingOp op = true → K op)

include hK

theorem Safe.settling_done {code : Exit} {r : Except Exc Report} {l : Local} {c : RunLatch} (hc : Later c l.latch)
    (hr : Recorded code r l) :
    Safe input.adapter K (settling input fun l => .done (r, l)) (fun r' l' c' =>
      Later c' l'.latch ∧ l'.latch = l.latch ∧ Recorded code r' l') l c := by
  rcases r with e | report
  · cases e
    case interrupt => exact Safe.settleInterruptedTeardown hK l c hc hr.outcome
    all_goals exact ⟨hc, rfl, hr⟩
  · exact ⟨hc, rfl, hr⟩

/-- However `migrate` ends, the exit code is settled there. -/
theorem Safe.settling_conclude {r : Except Exc Unit} {l : Local} {c : RunLatch} (hc : Later c l.latch)
    (ht : Told r l.latch) :
    Safe input.adapter K (settling input (Engine.conclude input r)) (fun r' l' c' =>
      Later c' l'.latch ∧ l'.latch = l.latch ∧ Recorded (exitAfter r l) r' l') l c := by
  refine wp_settling.2 (wp_mono (Safe.conclude hK r l c hc ht) ?_)
  rintro r' l' c' ⟨hc', hl, hr⟩
  refine wp_mono (Safe.settling_done hK hc' hr) ?_
  rintro r'' l'' c'' ⟨hc'', hl', hr'⟩
  exact ⟨hc'', hl'.trans hl, hr'⟩

theorem Safe.settling_throw {e : Exc} {l : Local} {c : RunLatch} (hc : Later c l.latch)
    (hr : l.reported = false) (hl : l.latch.state = .open) :
    Safe input.adapter K (settling input (Proc.throw e)) (fun r' l' c' =>
      Later c' l'.latch ∧ l'.latch = l.latch ∧ exitOf (r', l') = .migrationFailed) l c := by
  have he : l.latch.error = none := (RunLatch.error_eq_none_iff _).2 hl
  have hx (e : Exc) : exitOf (.error e, l) = .migrationFailed := by simp [exitOf, hr, he]
  cases e
  case interrupt => exact Safe.settleInterruptedStart hK l c hc hr hl
  all_goals exact ⟨hc, rfl, hx _⟩

end End

section Run

variable (hK : ∀ op, K op)

include hK

theorem Safe.migrate (l : Local) (c : RunLatch) (hc : Later c l.latch) (hl : l.latch.state = .open) :
    Safe input.adapter K (migrate input) (fun r l' c' => Later c' l'.latch ∧ Told r l'.latch ∧ Opened r l l') l c := by
  have hrest : Obeys input.adapter K isOpen (do
      let plan ← buildPlan input
      World.perform (.log "plan")
      Engine.execute input plan.active plan.pending) := by
    refine Obeys.weaken (Obeys.bind (Obeys.buildPlan fun op _ => hK op) fun plan => ?_)
      fun _ _ => trivial
    exact Obeys.bind_steady (Steady.perform_open (hK _)) fun _ =>
      Obeys.execute _ _ (fun _ _ op _ => hK op) fun _ _ => hK _
  refine (wp_bind _ _).2 (wp_mono (Safe.openNamespace (fun op _ => hK op) l c hc hl) ?_)
  rintro (e | u) l' c' ⟨hc', ht, ho⟩
  · exact ⟨hc', fun _ => ⟨e, rfl⟩, ho.unrecorded, fun h => ho.held (h.imp id nofun)⟩
  · refine wp_mono (hrest l' c' hc' ht.isOpen) ?_
    rintro r l'' c'' ⟨hc'', hw, ht'⟩
    exact ⟨hc'', ht', ho.onward hw⟩

omit hK in
theorem exitAfter_of_latched {r : Except Exc Unit} {l : Local} {e : Migr8Error} (ht : Told r l.latch)
    (he : l.latch.error = some e) : exitAfter r l = e.exitCode := by
  have hn : l.latch.state ≠ .open := fun h => by simp [(RunLatch.error_eq_none_iff _).2 h] at he
  obtain ⟨x, rfl⟩ := ht hn
  simp [exitAfter, terminalExit, terminalError, he]

/-- In the run as a whole the latch is set at most once, every request respects
it, and the kept error decides the exit code. -/
theorem Safe.run (c : RunLatch) (hc : Later c RunLatch.fresh) :
    Safe input.adapter K (Engine.run input) (fun r l' c' =>
      Later c' l'.latch ∧ ∀ e, l'.latch.error = some e → exitOf (r, l') = e.exitCode) {} c := by
  have hC : ∀ op, closingOp op = true → K op := fun op _ => hK op
  have hlog : Steady input.adapter K standing any (World.perform (.log "run_start")) :=
    Steady.perform_any (hK _) rfl rfl nofun
  refine wp_run.2 (wp_mono (hlog {} c hc trivial) ?_)
  rintro (e | u) l₁ c₁ ⟨hc₁, hs₁⟩
  · have hl₁ : l₁.latch.state = .open := hs₁.isOpen rfl
    refine wp_mono (Safe.settling_throw hC hc₁ (congrArg (fun v => v.1.1) hs₁.view) hl₁) ?_
    rintro r l' c' ⟨hc', hl', -⟩
    refine ⟨hc', fun e he => ?_⟩
    simp [hl', (RunLatch.error_eq_none_iff _).2 hl₁] at he
  · refine wp_mono (Safe.migrate hK l₁ c₁ hc₁ (hs₁.isOpen rfl)) ?_
    rintro r l₂ c₂ ⟨hc₂, ht, -⟩
    refine wp_mono (Safe.settling_conclude hC hc₂ ht) ?_
    rintro r' l' c' ⟨hc', hl', hr⟩
    refine ⟨hc', fun e he => ?_⟩
    rw [hr.exitOf, exitAfter_of_latched ht (hl' ▸ he)]

end Run

end Migr8.RunObedience
