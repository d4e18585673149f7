import Migr8.Initialization

namespace Migr8.Opening

open Errors Model Latch Driver Database World Adapters Metadata Engine StateValidate Context Rules Transactions
open Sessions Inspection Initialization Lib.Process

variable {α β : Type} {A : Request → Session → Outcome → Prop} {I : Request → Session → Prop} {input : Input}
  {d d' : Db} {p : Prop} {s : Session} {l : Local} {o : Outcome}

section Preflight

/-- What the text checks come to; they ask nothing of the database. -/
def Settles (m : Run α) (r : Except Exc α) : Prop := ∀ l, m l = .done (r, l)

/-- Every source file that the checks read can be read, and none of them trips a
check over something else than what it refuses. -/
structure Legible (texts : Texts) : Prop where
  sql : ∀ unit phase name, texts.readSqlEntry unit phase ≠ .error (.failed name)
  python : ∀ unit name, texts.compilePython unit ≠ .error (.failed name)
  statement : ∀ sql mode inBatch name, texts.admitStatement sql mode inBatch ≠ some (.failed name)
  ddl : ∀ sql name, texts.admitDdl sql ≠ some (.failed name)

def SourceError (e : Exc) : Prop := ∃ m, e = .migr8 m ∧ (m.exitCode = .usage ∨ m.exitCode = .validation)

def Checked (texts : Texts) (m : Run α) : Prop :=
  ∃ x, Settles m x ∧ (Legible texts → ∀ e, x = .error e → SourceError e)

variable {texts : Texts}

theorem Checked.pure (a : α) : Checked texts (Pure.pure a : Run α) :=
  ⟨.ok a, fun _ => rfl, fun _ e he => by cases he⟩

theorem Checked.bind {m : Run α} {f : α → Run β} (hm : Checked texts m) (hf : ∀ a, Checked texts (f a)) :
    Checked texts (m >>= f) := by
  obtain ⟨x, hx, hsource⟩ := hm
  cases x with
  | error e =>
      refine ⟨.error e, fun l => ?_, fun ht e' he => ?_⟩
      · change (m l).bind _ = _
        rw [hx l]
        rfl
      · cases he
        exact hsource ht e rfl
  | ok a =>
      obtain ⟨r, hr, hsource'⟩ := hf a
      refine ⟨r, fun l => ?_, hsource'⟩
      change (m l).bind _ = _
      rw [hx l]
      exact hr l

theorem sourceError_of_refusal (r : TextRefusal) : SourceError (.migr8 r.error) := by
  obtain ⟨⟨kind, message, phase, migrationId⟩, h⟩ := r
  refine ⟨_, rfl, ?_⟩
  have hkind : kind ∈ textKinds := h
  revert hkind
  cases kind <;> simp [textKinds, Refusal.error, RefusalKind.errorKind, Migr8Error.exitCode, ErrorKind.exitCode]

theorem Checked.refuse {r : Option TextError} (h : Legible texts → ∀ name, r ≠ some (.failed name)) :
    Checked texts (refuse r) := by
  cases r with
  | none => exact .pure ()
  | some e =>
      refine ⟨_, fun _ => rfl, fun ht x hx => ?_⟩
      cases hx
      cases e with
      | refused r => exact sourceError_of_refusal r
      | failed name => exact absurd rfl (h ht name)

theorem Checked.liftText {r : Except TextError α} (h : Legible texts → ∀ name, r ≠ .error (.failed name)) :
    Checked texts (liftText r) := by
  cases r with
  | ok a => exact .pure a
  | error e =>
      refine ⟨_, fun _ => rfl, fun ht x hx => ?_⟩
      cases hx
      cases e with
      | refused r => exact sourceError_of_refusal r
      | failed name => exact absurd rfl (h ht name)

theorem Checked.admitSqlEntry (unit : CapturedUnit) (phase : String) :
    Checked input.texts (admitSqlEntry input unit phase) := by
  apply (Checked.liftText fun ht => ht.sql unit phase).bind
  intro sql
  split
  · exact (Checked.refuse fun ht => ht.statement sql _ _).bind fun _ => .pure _
  · split
    · exact (Checked.refuse fun ht => ht.statement sql _ _).bind fun _ => .pure _
    · exact (Checked.refuse fun ht => ht.ddl sql).bind fun _ => .pure _

theorem Checked.preflightUnit (unit : CapturedUnit) : Checked input.texts (preflightUnit input unit) := by
  have hrequired : Checked input.texts (admitRequiredObjects input unit.required) := by
    unfold admitRequiredObjects
    split
    · refine Checked.refuse fun _ name => ?_
      cases input.texts.admitRequired unit.required <;> simp
    · split
      · exact .pure ()
      · refine ⟨_, fun _ => rfl, fun _ e he => ?_⟩
        cases he
        exact ⟨_, rfl, .inl rfl⟩
  apply hrequired.bind
  intro _
  cases unit.language with
  | python => exact Checked.liftText fun ht => ht.python unit
  | sql => exact (Checked.admitSqlEntry unit "preflight").bind fun _ => .pure ()

theorem preflight_checked (units : List CapturedUnit) : Checked input.texts (preflight input units) := by
  induction units with
  | nil => exact .pure ()
  | cons unit units ih => exact (Checked.preflightUnit unit).bind fun _ => ih

theorem Settles.wp {m : Run α} {r : Except Exc α} {P : Except Exc α → Local → Session → Prop} {adapter : Adapter}
    (h : Settles m r) (hP : P r l s) : wp (serve adapter) A I m P l s := by
  unfold Lib.Process.wp
  rw [h l]
  exact hP

theorem Settles.unique {m : Run α} {x y : Except Exc α} (hx : Settles m x) (hy : Settles m y) : x = y := by
  have h := (hx {}).symm.trans (hy {})
  injection h with h
  exact congrArg Prod.fst h

end Preflight

section Namespace

variable {adapter : Adapter} {E : Exc → Local → Prop}

theorem log_ends {event : String} {id : Option String} (hs : AtRest d s) (hp : p → Answered o) :
    Ends p (fun s => s.db = d) E (fun _ l' s' => l' = l ∧ AtRest d s') (serveLog event id o s).1 l
      (serveLog event id o s).2 := by
  unfold serveLog
  by_cases hf : o.fault = .interrupted
  · rw [if_pos hf]
    refine ⟨hs.db, fun h => ?_⟩
    rw [(hp h).1] at hf
    cases hf
  · rw [if_neg hf]
    exact ⟨rfl, hs.db, hs.idle⟩

theorem log_at_rest {event : String} {id : Option String} (hs : AtRest d s) (hA : Answers p A)
    (hI : I ⟨.log event id, l⟩ s) : wp (serve adapter) A I (World.perform (.log event id))
      (Ends p (fun s => s.db = d) E fun _ l' s' => l' = l ∧ AtRest d s') l s :=
  wp_perform.2 ⟨hI, fun _ ho => log_ends hs fun hp => hA hp _ _ _ ho⟩

theorem serveSetup_cases (hp : p → Answered o) :
    serveSetup o s = (.ok (), s) ∨ ∃ e, serveSetup o s = (.error e, s) ∧ ¬ p := by
  unfold serveSetup
  cases he : o.fault.exc with
  | some e =>
      refine .inr ⟨e, rfl, fun h => ?_⟩
      rw [(hp h).1] at he
      cases he
  | none =>
      cases hr : o.refusal with
      | none => exact .inl rfl
      | some r =>
          refine .inr ⟨.migr8 r.error, rfl, fun h => ?_⟩
          rw [(hp h).2] at hr
          cases hr

theorem setup_ends (hp : p → Answered o) : Ends p (fun s' => s' = s) (fun _ _ => False)
    (fun _ l' s' => l' = l ∧ s' = s) (serveSetup o s).1 l (serveSetup o s).2 := by
  rcases serveSetup_cases (s := s) hp with h | ⟨e, h, hn⟩
  · rw [h]
    exact ⟨rfl, rfl⟩
  · rw [h]
    exact ⟨rfl, fun hp => hn hp⟩

/-- A handler that raises whatever it is given. -/
theorem Ends.rethrow {m : Run α} {h : Exc → Run α} {J : Session → Prop} {Q : α → Local → Session → Prop}
    (hm : wp (serve adapter) A I m (Ends p J (fun _ _ => False) Q) l s) (hh : ∀ e, ∃ e', h e = Proc.throw e') :
    wp (serve adapter) A I (m.tryCatch h) (Ends p J E Q) l s := by
  apply (wp_tryCatch _ _).2
  apply wp_mono hm
  intro r l' s' hr
  cases r with
  | ok a => exact hr
  | error e =>
      obtain ⟨e', he⟩ := hh e
      dsimp only
      rw [he]
      exact ⟨hr.1, fun hp => (hr.2 hp).elim⟩

theorem raises_or (b : Prop) [Decidable b] (m : Migr8Error) (e : Exc) :
    ∃ e', (if b then raise m else Proc.throw e : Run α) = Proc.throw e' := by
  by_cases hb : b
  · exact ⟨.migr8 m, if_pos hb⟩
  · exact ⟨e, if_neg hb⟩

/-- Setup leaves the session alone, and fails only where a call does. -/
theorem connect_at_rest (hs : AtRest d s) (hl : Poised l) (hA : Answers p A) (hI : I ⟨.connect, l⟩ s) :
    wp (serve adapter) A I connect (Ends p (fun s' => s' = s) E fun _ l' s' => Poised l' ∧ AtRest d s') l s := by
  have hask : wp (serve adapter) A I (World.perform .connect)
      (Ends p (fun s' => s' = s) (fun _ _ => False) fun _ l' s' => l' = l ∧ s' = s) l s :=
    wp_perform.2 ⟨hI, fun o ho => setup_ends fun hp => hA hp _ _ _ ho⟩
  apply Ends.bind (Ends.mono hask (fun _ _ _ h => h) (fun _ h => h) fun _ _ h => h.elim)
  rintro - l' s' ⟨rfl, rfl⟩
  exact ⟨⟨hl.latch, hl.engine⟩, hs⟩

theorem acquireLock_at_rest (hs : AtRest d s) (hl : Poised l) (hA : Answers p A) (hI : I ⟨.acquireLock, l⟩ s) :
    wp (serve adapter) A I (acquireLock adapter) (Ends p (fun s' => s' = s) E fun _ l' s' =>
      Poised l' ∧ AtRest d s') l s := by
  have hask : wp (serve adapter) A I (World.perform .acquireLock)
      (Ends p (fun s' => s' = s) (fun _ _ => False) fun _ l' s' => l' = l ∧ s' = s) l s :=
    wp_perform.2 ⟨hI, fun o ho => setup_ends fun hp => hA hp _ _ _ ho⟩
  apply Ends.bind (Ends.rethrow hask fun e => raises_or _ _ _)
  rintro - l' s' ⟨rfl, rfl⟩
  exact ⟨⟨hl.latch, hl.engine⟩, hs⟩

theorem prepareStorage_at_rest (hA : Answers p A) (hI : I ⟨.prepareStorage, l⟩ s) :
    wp (serve adapter) A I (prepareStorage adapter) (Ends p (fun s' => s' = s) E fun _ l' s' =>
      l' = l ∧ s' = s) l s := by
  cases adapter with
  | postgres => exact ⟨rfl, rfl⟩
  | oracle => exact ⟨rfl, rfl⟩
  | sqlite =>
      have hask : wp (serve .sqlite) A I (World.perform .prepareStorage)
          (Ends p (fun s' => s' = s) (fun _ _ => False) fun _ l' s' => l' = l ∧ s' = s) l s :=
        wp_perform.2 ⟨hI, fun o ho => setup_ends fun hp => hA hp _ _ _ ho⟩
      exact Ends.rethrow hask fun e => raises_or _ _ _

end Namespace

section Open

/-- What may be durable on the way to an open namespace. -/
def Within (input : Input) (d d' : Db) : Prop :=
  d' = d ∨ input.recoverId = none ∧ Unfinished d ∧ Stage input.config d d'

inductive Unfit (input : Input) (d : Db) : Exc → Prop
  | damaged {m : Migr8Error} (hn : ¬ Uninspected d) (h : (inspected d).state = .damaged)
      (hm : m.kind = .metadataDamaged) :
      Unfit input d (.migr8 m)
  | uninitialized {m : Migr8Error} (hr : input.recoverId.isSome = true)
      (h : (inspected d).state = .absent ∨ (inspected d).state = .incompleteCompatible) (hm : m.kind = .validation) :
      Unfit input d (.migr8 m)
  | unbound {m : Migr8Error} (h : (inspected d).state = .complete)
      (hv : verifyBindings input.config (inspected d).metaRow = .error m) : Unfit input d (.migr8 m)

/-- Why a run whose calls are all answered stops before it reads the history. -/
inductive Refused (input : Input) (d : Db) (e : Exc) : Prop
  | preflight (h : Settles (preflight input input.capture.units) (.error e)) : Refused input d e
  | unfit (hc : Settles (preflight input input.capture.units) (.ok ())) (h : Unfit input d e) : Refused input d e

structure Opened (input : Input) (d d' : Db) : Prop where
  within : Within input d d'
  complete : Complete d'
  bound : verifyBindings input.config (markerFound d') = .ok ()

/-- How opening the namespace fails when every call is answered. An inspection that
breaks leaves a driver's error, or an unknown outcome. -/
inductive Stopped (input : Input) (d : Db) (e : Exc) (l : Local) : Prop
  | blocked (hr : input.recoverId = none) (hu : Unfinished d) (hb : Blocked d) : Stopped input d e l
  | broken (hc : Settles (preflight input input.capture.units) (.ok ())) (hu : Uninspected d)
      (h : l.latch.state = .unknownOutcome ∨ l.latch.state = .open ∧ e = .driver (notATable input.adapter)) :
      Stopped input d e l
  | refused (hl : l.latch.state = .open) (h : Refused input d e) : Stopped input d e l

structure Permits (I : Request → Session → Prop) (input : Input) (d : Db) : Prop where
  asks : ∀ s, Within input d s.db → Asks I s
  creates : ∀ name l s, Within input d s.db → s.db.marker = [] → I ⟨.createObject name, l⟩ s

theorem verifyBindings_bound (c : Config) (now : Option Timestamp) :
    verifyBindings c (some { markerRow c with initializedAt := now }) = .ok () := by
  simp [verifyBindings, markerRow]

theorem Permits.allows (hI : Permits I input d) (hr : input.recoverId = none) (hu : Unfinished d) :
    Allows I input.config d := by
  constructor
  · exact fun s h => hI.asks s (.inr ⟨hr, hu, h⟩)
  · exact fun name l s h => hI.creates name l s (.inr ⟨hr, hu, h⟩)

/-- A verdict without a marker, and not of damage. -/
theorem unfinished_of_verdict (hm : markerFound d = none → d.marker = [])
    (h : (inspected d).state = .absent ∨ (inspected d).state = .incompleteCompatible) : Unfinished d := by
  have hnone : markerFound d = none := by
    cases hf : markerFound d with
    | none => rfl
    | some m =>
        rcases marked_cases hf with ⟨-, hc⟩ | ⟨-, hc⟩
        · rw [hc] at h
          rcases h with h | h <;> cases h
        · rw [hc] at h
          rcases h with h | h <;> cases h
  refine ⟨hm hnone, ?_⟩
  rcases unmarked_cases hnone with ⟨-, hd⟩ | ⟨hf, -⟩
  · rw [hd] at h
    rcases h with h | h <;> cases h
  · exact hf

theorem inspected_of_complete (h : Complete d) : ∃ m, d.marker = [m] ∧
    inspected d = { state := .complete, metaRow := some m } := by
  obtain ⟨m, hm, hf⟩ := h.markerFound
  rcases marked_cases hf with ⟨-, hc⟩ | ⟨hn, -⟩
  · exact ⟨m, hm, hc⟩
  · exact absurd h hn

theorem complete_of_inspected (h : (inspected d).state = .complete) :
    Complete d ∧ (inspected d).metaRow = markerFound d := by
  cases hf : markerFound d with
  | none =>
      rcases unmarked_cases hf with ⟨-, hd⟩ | ⟨-, hd | hd⟩
      all_goals rw [hd] at h; cases h
  | some m =>
      rcases marked_cases hf with ⟨hc, hi⟩ | ⟨-, hd⟩
      · refine ⟨hc, ?_⟩
        rw [hi]
      · rw [hd] at h
        cases h

variable (hc : Settles (preflight input input.capture.units) (.ok ())) (hn : ¬ Uninspected d) (hA : Answers p A)
  (hI : Permits I input d)

include hA hI

theorem wp_completeInitialization (hs : AtRest d s) (hl : Poised l) (hr : input.recoverId = none) (hu : Unfinished d) :
    wp (serve input.adapter) A I (completeInitialization input)
    (Ends p (fun s' => Within input d s'.db) (Stopped input d)
      fun found l' s' => ∃ d', AtRest d' s' ∧ Poised l' ∧ found = inspected d' ∧ Initialized input.config d d')
      l s := by
  have hwithin {x : Db} (h : Stage input.config d x) : Within input d x := .inr ⟨hr, hu, h⟩
  apply Ends.bind (Ends.mono (wp_initializeMetadata hA (hI.allows hr hu) hu hs hl) (fun _ _ _ h => h)
    (fun _ h => hwithin h) fun _ _ h => .blocked hr hu h)
  rintro - l₁ s₁ ⟨d₁, hs₁, hl₁, hinit⟩
  have hdb₁ : Within input d s₁.db := by rw [hs₁.db]; exact hwithin hinit.2.1
  apply (wp_bind _ _).2
  apply wp_mono (wp_inspectMetadata hA (hI.asks s₁ hdb₁) hl₁.latch hs₁)
  rintro r l₂ s₂ ⟨rfl, h⟩
  cases r with
  | error e => exact ⟨hdb₁, fun hp => absurd (h hp).1 hinit.1.inspected⟩
  | ok report =>
      obtain ⟨rfl, -, hrep⟩ := h
      obtain ⟨m, -, hm⟩ := inspected_of_complete hinit.1
      rcases hrep with rfl | ⟨hd, hp⟩
      · dsimp only
        rw [if_pos (by rw [hm])]
        exact ⟨d₁, hs₁, hl₁, rfl, hinit⟩
      · dsimp only
        rw [if_neg (by rw [hd]; decide)]
        refine ⟨hdb₁, fun h => ?_⟩
        have hdamaged := hp h
        rw [hm] at hdamaged
        cases hdamaged

include hc hn in
theorem wp_completed (hs : AtRest d s) (hl : Poised l) {report : MetadataReport}
    (hm : input.recoverId = none → markerFound d = none → d.marker = []) (hr : Reports p d report)
    (hrec : input.recoverId.isSome = true → report.state = .complete) :
    wp (serve input.adapter) A I (completed input report) (Ends p (fun s' => Within input d s'.db) (Stopped input d)
      fun found l' s' => ∃ d', AtRest d' s' ∧ Poised l' ∧ found = inspected d' ∧ found.state = .complete ∧
        (d' = d ∨ input.recoverId = none ∧ Unfinished d ∧ Initialized input.config d d')) l s := by
  have hfresh (hstate : report.state = .absent ∨ report.state = .incompleteCompatible) :
      wp (serve input.adapter) A I (completeInitialization input) (Ends p (fun s' => Within input d s'.db)
        (Stopped input d) fun found l' s' => ∃ d', AtRest d' s' ∧ Poised l' ∧ found = inspected d' ∧
          found.state = .complete ∧ (d' = d ∨ input.recoverId = none ∧ Unfinished d ∧ Initialized input.config d d'))
        l s := by
    have hnone : input.recoverId = none := by
      cases hid : input.recoverId with
      | none => rfl
      | some id =>
          rw [hrec (by rw [hid]; rfl)] at hstate
          rcases hstate with h | h <;> cases h
    have hrep : report = inspected d := by
      apply hr.resolve_right
      rintro ⟨hd, -⟩
      rw [hd] at hstate
      rcases hstate with h | h <;> cases h
    rw [hrep] at hstate
    have hu := unfinished_of_verdict (hm hnone) hstate
    apply Ends.mono (wp_completeInitialization hA hI hs hl hnone hu) ?_ (fun _ h => h) fun _ _ h => h
    rintro found l' s' ⟨d', hs', hl', hf, hinit⟩
    obtain ⟨m, -, hc⟩ := inspected_of_complete hinit.1
    exact ⟨d', hs', hl', hf, by rw [hf, hc], .inr ⟨hnone, hu, hinit⟩⟩
  unfold completed
  cases hstate : report.state with
  | absent => exact hfresh (.inl hstate)
  | incompleteCompatible => exact hfresh (.inr hstate)
  | complete =>
      have hrep : report = inspected d := by
        apply hr.resolve_right
        rintro ⟨hd, -⟩
        rw [hd] at hstate
        cases hstate
      exact ⟨d, hs, hl, hrep, hstate, .inl rfl⟩
  | damaged =>
      refine ⟨.inl hs.db, fun hp => .refused hl.latch ?_⟩
      exact .unfit hc (.damaged hn (by rw [← hr.state hp]; exact hstate) rfl)

include hc hn in
theorem wp_initializeIfNeeded (hs : AtRest d s) (hl : Poised l) {report : MetadataReport}
    (hm : input.recoverId = none → markerFound d = none → d.marker = []) (hr : Reports p d report)
    (hrec : input.recoverId.isSome = true → report.state = .complete) :
    wp (serve input.adapter) A I (initializeIfNeeded input report) (Ends p (fun s' => Within input d s'.db)
      (Stopped input d) fun _ l' s' => ∃ d', Opened input d d' ∧ AtRest d' s' ∧ Poised l') l s := by
  apply Ends.bind (wp_completed hc hn hA hI hs hl hm hr hrec)
  rintro found l₁ s₁ ⟨d₁, hs₁, hl₁, rfl, hstate, hd₁⟩
  obtain ⟨hcomplete, hrow⟩ := complete_of_inspected hstate
  have hwithin : Within input d d₁ := hd₁.imp (fun h => h) fun h => ⟨h.1, h.2.1, h.2.2.2.1⟩
  rw [hrow]
  cases hv : verifyBindings input.config (markerFound d₁) with
  | ok u => exact ⟨d₁, ⟨hwithin, hcomplete, hv⟩, hs₁, hl₁⟩
  | error m =>
      have hdb₁ : Within input d s₁.db := by rw [hs₁.db]; exact hwithin
      refine ⟨hdb₁, fun _ => .refused hl₁.latch ?_⟩
      rcases hd₁ with rfl | ⟨-, -, hinit⟩
      · exact .unfit hc (.unbound hstate (by rw [hrow]; exact hv))
      · obtain ⟨now, hmark⟩ := hinit.2.2
        obtain ⟨m', hm', hf⟩ := hcomplete.markerFound
        rw [hmark] at hm'
        rw [hf, ← (List.cons.inj hm').1, verifyBindings_bound] at hv
        cases hv

omit hA hI in
/-- Opening the namespace comes to what completing its metadata comes to. -/
theorem wp_openNamespace_of {J : Session → Prop} {Q : Local → Session → Prop} (hA : Answers p A)
    (hask : ∀ s, s.db = d → Asks I s) (hJ : ∀ s, s.db = d → J s) (hs : AtRest d s) (hl : Poised l)
    (hinit : Settles (preflight input input.capture.units) (.ok ()) → ¬ Uninspected d → ∀ report l s,
      AtRest d s → Poised l → Reports p d report → (input.recoverId.isSome = true → report.state = .complete) →
      wp (serve input.adapter) A I (initializeIfNeeded input report) (Ends p J (Stopped input d) fun _ => Q) l s) :
    wp (serve input.adapter) A I (openNamespace input) (Ends p J (Stopped input d)
      fun _ l' s' => Settles (preflight input input.capture.units) (.ok ()) ∧ Q l' s') l s := by
  have hat {s₁ : Session} (h : AtRest d s₁) : Asks I s₁ := hask s₁ h.db
  have hsame {s₁ : Session} (h : AtRest d s₁) (s₂ : Session) (he : s₂ = s₁) : J s₂ := by
    rw [he]
    exact hJ s₁ h.db
  obtain ⟨r, hr, -⟩ : Checked input.texts (preflight input input.capture.units) := preflight_checked _
  apply (wp_bind _ _).2
  apply (wp_modify _).2
  apply (wp_bind _ _).2
  apply hr.wp
  cases r with
  | error e => exact ⟨hJ s hs.db, fun _ => .refused hl.latch (.preflight hr)⟩
  | ok u =>
      have hlog {event : String} {l₁ : Local} {s₁ : Session} (h : AtRest d s₁) (he : (event == "plan") = false) :
          wp (serve input.adapter) A I (World.perform (.log event)) (Ends p J
            (Stopped input d) fun _ l' s' => l' = l₁ ∧ AtRest d s') l₁ s₁ :=
        Ends.mono (log_at_rest h hA (hat h _ _ he)) (fun _ _ _ h => h) (fun s' h => hJ s' h) fun _ _ h => h
      apply Ends.bind (hlog hs rfl)
      rintro - l₁ s₁ ⟨rfl, hs₁⟩
      have hl₁ : Poised { l with started := true } := ⟨hl.latch, hl.engine⟩
      apply Ends.bind (Ends.mono (connect_at_rest hs₁ hl₁ hA (hat hs₁ _ _ rfl)) (fun _ _ _ h => h)
        (hsame hs₁) fun _ _ h => h)
      rintro - l₂ s₂ ⟨hl₂, hs₂⟩
      apply (wp_bind _ _).2
      apply (wp_modify _).2
      have hl₃ : Poised { l₂ with
          connected := true
          report := { l₂.report with targetNamespace := some input.config.targetNamespace } } := ⟨hl₂.latch, hl₂.engine⟩
      apply Ends.bind (hlog hs₂ rfl)
      rintro - l₃ s₃ ⟨rfl, hs₃⟩
      apply Ends.bind (Ends.mono (acquireLock_at_rest hs₃ hl₃ hA (hat hs₃ _ _ rfl))
        (fun _ _ _ h => h) (hsame hs₃) fun _ _ h => h)
      rintro - l₄ s₄ ⟨hl₄, hs₄⟩
      apply Ends.bind (hlog hs₄ rfl)
      rintro - l₅ s₅ ⟨rfl, hs₅⟩
      apply (wp_bind _ _).2
      apply wp_mono (wp_inspectMetadata hA (hat hs₅) hl₄.latch hs₅)
      rintro r l₆ s₆ ⟨rfl, h⟩
      cases r with
      | error e =>
          refine ⟨hJ s₆ hs₅.db, fun hp => ?_⟩
          obtain ⟨hu, ⟨m, -, -, hl₆⟩ | ⟨he, rfl⟩⟩ := h hp
          · exact .broken hr hu (.inl hl₆)
          · exact .broken hr hu (.inr ⟨hl₄.latch, he⟩)
      | ok report =>
          obtain ⟨rfl, hn, hrep⟩ := h
          have hstorage (hrec : input.recoverId.isSome = true → report.state = .complete) :
              wp (serve input.adapter) A I (do
                prepareStorage input.adapter
                initializeIfNeeded input report) (Ends p J (Stopped input d)
                fun _ l' s' => Settles (preflight input input.capture.units) (.ok ()) ∧ Q l' s') l₆ s₆ := by
            apply Ends.bind (Ends.mono (prepareStorage_at_rest hA (hat hs₅ _ _ rfl)) (fun _ _ _ h => h) (hsame hs₅)
              fun _ _ h => h)
            rintro - l₇ s₇ ⟨rfl, rfl⟩
            exact Ends.mono (hinit hr hn report l₇ s₇ hs₅ hl₄ hrep hrec) (fun _ _ _ h => ⟨hr, h⟩) (fun _ h => h)
              fun _ _ h => h
          unfold admitRecoveryNamespace
          dsimp only
          cases hid : input.recoverId with
          | none =>
              apply hstorage
              rw [hid]
              exact fun h => by cases h
          | some id =>
              have hsome : input.recoverId.isSome = true := by rw [hid]; rfl
              have hfit (hp : p) : report.state = (inspected d).state := hrep.state hp
              cases hstate : report.state with
              | complete =>
                  exact hstorage fun _ => hstate
              | damaged =>
                  exact ⟨hJ s₆ hs₅.db, fun hp =>
                    .refused hl₄.latch (.unfit hr (.damaged hn (by rw [← hfit hp]; exact hstate) rfl))⟩
              | absent =>
                  exact ⟨hJ s₆ hs₅.db, fun hp =>
                    .refused hl₄.latch (.unfit hr (.uninitialized hsome (.inl (by rw [← hfit hp]; exact hstate)) rfl))⟩
              | incompleteCompatible =>
                  exact ⟨hJ s₆ hs₅.db, fun hp =>
                    .refused hl₄.latch (.unfit hr (.uninitialized hsome (.inr (by rw [← hfit hp]; exact hstate)) rfl))⟩

/-- The namespace is opened, or the run stops on the way. -/
theorem wp_openNamespace (hs : AtRest d s) (hl : Poised l)
    (hm : input.recoverId = none → markerFound d = none → d.marker = []) :
    wp (serve input.adapter) A I (openNamespace input) (Ends p (fun s' => Within input d s'.db) (Stopped input d)
      fun _ l' s' => Settles (preflight input input.capture.units) (.ok ()) ∧
        ∃ d', Opened input d d' ∧ AtRest d' s' ∧ Poised l') l s := by
  apply wp_openNamespace_of hA (fun s h => hI.asks s (.inl h)) (fun s h => .inl h) hs hl
  intro hc hn report l₁ s₁ hs₁ hl₁ hrep hrec
  exact wp_initializeIfNeeded hc hn hA hI hs₁ hl₁ hm hrep hrec

end Open

section Stranded

/-- A marker row is there, for all that the dictionary queries show of it. -/
abbrev Marked (d : Db) : Prop := d.marker ≠ []

theorem keeps_marked (op : Op) : Keeps Marked op := by
  cases op <;> try trivial
  case createObject name => exact fun d h => h
  case insertMarker row => exact fun d now h => List.cons_ne_nil _ _
  case insertHistory i => exact fun d now h _ => h
  case updateAttempt => exact fun d now h => h
  case completeActive => exact fun d now h => h
  case deleteProgress => exact fun d h => h
  case progressSet => exact fun d now w h _ => h
  case statement => exact fun d w h => h

theorem insertMarker_marked {row : MetaRow} (h : Holds Marked s) :
    (serve input.adapter ⟨.insertMarker row, l⟩ o s).1 ≠ .ok () := by
  have hfail : World.insertMarker input.adapter row o.now s.visible = .error (constraintError input.adapter) :=
    if_neg h.visible
  change (submit input.adapter false o (write input.adapter l.engineTransaction
    (World.insertMarker input.adapter row o.now)) id s).1 ≠ .ok ()
  have hcarry {u : Unit} {s' : Session} : carryOut (write input.adapter l.engineTransaction
      (World.insertMarker input.adapter row o.now)) s ≠ (.ok u, s') := by
    unfold carryOut
    split
    · nofun
    · unfold write
      rw [hfail]
      nofun
  unfold submit
  cases o.fault.exc with
  | some e => nofun
  | none =>
      dsimp only
      split
      · next he => exact absurd he hcarry
      · nofun

theorem wp_insertMarker_marked {row : MetaRow} {operation phase : String} (hs : Holds Marked s) :
    wp (serve input.adapter) A (fun _ _ => True) (exec input.config (.insertMarker row) operation phase)
      (fun r _ _ => r ≠ .ok ()) l s := by
  apply (wp_guarded _ _ _).2
  cases l.latch.error with
  | some e => nofun
  | none =>
      have hwp : wp (serve input.adapter) A (fun _ _ => True) (World.perform (.insertMarker row))
          (fun r _ _ => r ≠ .ok ()) l s := wp_perform.2 ⟨trivial, fun o _ => insertMarker_marked hs⟩
      apply wp_mono hwp
      intro r l' s' h
      cases r with
      | error e => nofun
      | ok u => exact absurd rfl h

theorem wp_marked {m : Run α} {f : α → Run Unit} (hs : Holds Marked s)
    (hf : ∀ a l s, Holds Marked s → wp (serve input.adapter) A (fun _ _ => True) (f a) (fun r _ _ => r ≠ .ok ()) l s) :
    wp (serve input.adapter) A (fun _ _ => True) (m >>= f) (fun r _ _ => r ≠ .ok ()) l s := by
  apply (wp_bind _ _).2
  apply wp_mono (wp_kept (fun q o s h => h.serve (keeps_marked q.op)) m hs)
  intro r l' s' h
  cases r with
  | error e => nofun
  | ok a => exact hf a l' s' h

theorem wp_initializeMetadata_marked (hs : Holds Marked s) :
    wp (serve input.adapter) A (fun _ _ => True) (initializeMetadata input.config) (fun r _ _ => r ≠ .ok ()) l s := by
  unfold initializeMetadata
  apply wp_marked hs
  intro present l₁ s₁ hs₁
  apply wp_marked hs₁
  intro _ l₂ s₂ hs₂
  apply wp_marked hs₂
  intro present l₃ s₃ hs₃
  apply wp_marked hs₃
  intro problems l₄ s₄ hs₄
  dsimp only
  split
  · nofun
  · apply wp_marked hs₄
    intro _ l₅ s₅ hs₅
    apply (wp_bind _ _).2
    apply wp_mono (wp_insertMarker_marked hs₅)
    intro r l' s' h
    cases r with
    | error e => nofun
    | ok u => exact absurd rfl h

/-- A marker row that cannot be read keeps the namespace from being opened. -/
theorem wp_openNamespace_marked (hs : AtRest d s) (hl : Poised l) (hn : markerFound d = none) (hm : d.marker ≠ []) :
    wp (serve input.adapter) A (fun _ _ => True) (openNamespace input) (fun r _ _ => r ≠ .ok ()) l s := by
  have hends : wp (serve input.adapter) A (fun _ _ => True) (openNamespace input) (Ends False (fun _ => True)
      (Stopped input d) fun _ _ _ => Settles (preflight input input.capture.units) (.ok ()) ∧ False) l s := by
    apply wp_openNamespace_of (fun h => h.elim) (fun _ _ _ _ _ => trivial) (fun _ _ => trivial) hs hl
    intro _ _ report l₁ s₁ hs₁ hl₁ hrep _
    have hmarked : Holds Marked s₁ := Holds.of_none (by rw [hs₁.db]; exact hm) hs₁.idle
    have hrest :
        wp (serve input.adapter) A (fun _ _ => True) (initializeIfNeeded input report) (fun r _ _ => r ≠ .ok ())
        l₁ s₁ := by
      have hcompleted : wp (serve input.adapter) A (fun _ _ => True) (completeInitialization input)
          (fun r _ _ => ∃ e, r = .error e) l₁ s₁ := by
        apply (wp_bind _ _).2
        apply wp_mono (wp_initializeMetadata_marked hmarked)
        intro r l' s' h
        cases r with
        | error e => exact ⟨e, rfl⟩
        | ok u => exact absurd rfl h
      have hfails :
          wp (serve input.adapter) A (fun _ _ => True) (completed input report) (fun r _ _ => ∃ e, r = .error e)
          l₁ s₁ := by
        unfold completed
        cases hstate : report.state with
        | absent => exact hcompleted
        | incompleteCompatible => exact hcompleted
        | damaged => exact ⟨_, rfl⟩
        | complete =>
            rcases hrep with rfl | ⟨hd, -⟩
            · rcases unmarked_cases hn with ⟨-, hd⟩ | ⟨-, hd | hd⟩
              all_goals rw [hd] at hstate; cases hstate
            · rw [hd] at hstate
              cases hstate
      apply (wp_bind _ _).2
      apply wp_mono hfails
      rintro r l' s' ⟨e, rfl⟩
      nofun
    apply wp_mono hrest
    intro r l' s' h
    cases r with
    | error e => exact ⟨trivial, fun h => h.elim⟩
    | ok u => exact absurd rfl h
  apply wp_mono hends
  intro r l' s' h
  cases r with
  | error e => nofun
  | ok u => exact h.2.elim

end Stranded

end Migr8.Opening
