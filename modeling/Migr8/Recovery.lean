import Migr8.Prediction

namespace Migr8.Recovery

open Errors Model Latch Driver Database World Adapters Metadata Engine StateValidate Rules Shape Forward Frames Plans
open PlanRule Verdicts Teardown Transactions Inspection Initialization Opening Snapshots Outcomes Acceptance Prediction
    Lib.Process
open Lib.Interaction (Exchange trace final play_wp final_wp whole_meets)

variable {input : Input} {id : String} {d d' : Db} {s s' : Session} {os : Nat → Outcome} {plan : Plan} {l : Local}
  {row : HistoryRow} {unit : CapturedUnit} {A : Request → Session → Outcome → Prop} {c : Config}

section Admission

/-- What `--recover` is for: the row it names is ACTIVE, and the capture has a
restartable unit of that identity at its position. -/
structure Recoverable (input : Input) (id : String) (d : Db) (row : HistoryRow) (unit : CapturedUnit) : Prop where
  checked : Settles (preflight input input.capture.units) (.ok ())
  complete : Complete d
  bound : verifyBindings input.config (markerFound d) = .ok ()
  rule : Rule input.capture (stored d)
  stored : row ∈ d.history
  active : row.isActive = true
  named : row.migrationId = id
  captured : unit ∈ input.capture.units
  position : (unit.position : Int) = row.seq
  identity : unit.id = id
  restartable : unit.mode = .restartable

theorem stored_perm (d : Db) : (Snapshots.stored d).history.Perm d.history := sortBySeq_perm d.history

theorem mem_stored : row ∈ (Snapshots.stored d).history ↔ row ∈ d.history := (stored_perm d).mem_iff

theorem checkRecoveryAdmission_ok (h : checkRecoveryAdmission plan id = .ok ()) : ∃ row unit, plan.active = some row ∧
    row.migrationId = id ∧ plan.capture.atPosition row.seq = some unit ∧ unit.id = row.migrationId ∧
    unit.mode = .restartable ∧ row.mode = Mode.restartable.value := by
  unfold checkRecoveryAdmission at h
  cases ha : plan.active with
  | none =>
      rw [ha] at h
      cases h
  | some row =>
      rw [ha] at h
      dsimp only at h
      split at h
      · cases h
      · next hid =>
          cases hu : plan.capture.atPosition row.seq with
          | none =>
              rw [hu] at h
              cases h
          | some unit =>
              rw [hu] at h
              dsimp only at h
              split at h
              · cases h
              · next hsame =>
                  split at h
                  · cases h
                  · next hmode =>
                      obtain ⟨hu', hr'⟩ := not_or.1 hmode
                      exact ⟨row, unit, rfl, not_not.1 hid, hu, not_not.1 hsame, not_not.1 hu', not_not.1 hr'⟩

theorem checkRecoveryAdmission_of (ha : plan.active = some row) (hid : row.migrationId = id)
    (hu : plan.capture.atPosition row.seq = some unit) (hsame : unit.id = row.migrationId)
    (hmode : unit.mode = .restartable) (hrow : row.mode = Mode.restartable.value) :
    checkRecoveryAdmission plan id = .ok () := by
  unfold checkRecoveryAdmission
  rw [ha]
  dsimp only
  rw [if_neg (not_not.2 hid), hu]
  dsimp only
  rw [if_neg (not_not.2 hsame), if_neg (not_or.2 ⟨not_not.2 hmode, not_not.2 hrow⟩)]

theorem atPosition_iff {capture : Capture} {i : Int} : capture.atPosition i = some unit ↔
    unit ∈ capture.units ∧ (unit.position : Int) = i := by
  unfold Capture.atPosition
  constructor
  · intro h
    split at h
    · next hi => exact unit_of_getElem? hi.1 h
    · cases h
  · rintro ⟨hu, rfl⟩
    have hget := getElem?_of_unit hu rfl
    obtain ⟨hlt, -⟩ := List.getElem?_eq_some_iff.1 hget
    have hpos : 1 ≤ unit.position := by
      have hmem : unit.position ∈ capture.units.map (·.position) := List.mem_map_of_mem hu
      rw [capture.positions] at hmem
      exact (List.mem_range'_1.1 hmem).1
    rw [if_pos ⟨by omega, by omega⟩]
    exact hget

theorem planFor_recover (hr : input.recoverId = some id) : planFor input d = .ok plan ↔
    StateValidate.buildPlan input.capture (Snapshots.stored d) = .ok plan ∧
    checkRecoveryAdmission plan id = .ok () := by
  unfold planFor admission
  rw [hr]
  constructor
  · intro h
    obtain ⟨plan', hb, h⟩ := bind_ok_iff.1 h
    obtain ⟨⟨⟩, hc, h⟩ := bind_ok_iff.1 h
    cases h
    exact ⟨hb, hc⟩
  · rintro ⟨hb, hc⟩
    exact bind_ok_iff.2 ⟨plan, hb, bind_ok_iff.2 ⟨(), hc, rfl⟩⟩

/-- A plan is accepted for what `--recover` is for, and for nothing else. -/
theorem accepts_iff (hr : input.recoverId = some id) :
    (∃ plan, Accepts input d d plan) ↔ ∃ row unit, Recoverable input id d row unit := by
  constructor
  · rintro ⟨plan, h⟩
    obtain ⟨hb, hc⟩ := (planFor_recover hr).1 h.planned
    obtain ⟨row, unit, ha, hid, hu, hsame, hmode, -⟩ := checkRecoveryAdmission_ok hc
    have hcapture : plan.capture = input.capture := by
      rw [buildPlan_planOf hb]
      rfl
    rw [hcapture] at hu
    obtain ⟨hmem, hpos⟩ := atPosition_iff.1 hu
    obtain ⟨hrow, hactive⟩ := ((plan_planned hb).active row).1 ha
    exact ⟨row, unit, h.checked, h.opened.complete, h.opened.bound, rule_of_plan hb, mem_stored.1 hrow,
      isActive_iff.2 hactive, hid, hmem, hpos, hsame.trans hid, hmode⟩
  · rintro ⟨row, unit, h⟩
    obtain ⟨plan, hb⟩ := plan_of_rule h.rule
    have ha : plan.active = some row :=
      ((plan_planned hb).active row).2 ⟨mem_stored.2 h.stored, isActive_iff.1 h.active⟩
    have hcapture : plan.capture = input.capture := by
      rw [buildPlan_planOf hb]
      rfl
    have hu : plan.capture.atPosition row.seq = some unit := by
      rw [hcapture]
      exact atPosition_iff.2 ⟨h.captured, h.position⟩
    have hshape := ((validateSnapshotShape_ok_iff _).1 (buildPlan_shape hb)).2.1
    have hmode := ((rowValid_iff.1 (hshape.valid row (mem_stored.2 h.stored))).active (isActive_iff.1 h.active)).1
    have hadmit := checkRecoveryAdmission_of ha h.named hu (h.identity.trans h.named.symm) h.restartable hmode
    exact ⟨plan, h.checked, ⟨.inl rfl, h.complete, h.bound⟩, (planFor_recover hr).2 ⟨hb, hadmit⟩⟩

end Admission

section Refused

theorem within_of_recover (hr : input.recoverId.isSome = true) (h : Within input d d') : d' = d := by
  rcases h with h | ⟨hn, -⟩
  · exact h
  · rw [hn] at hr
    cases hr

theorem Opened.same (hr : input.recoverId.isSome = true) (h : Opened input d d') : d' = d :=
  within_of_recover hr h.within

theorem Refused.exit {e : Exc} (hlegible : Legible input.texts) (hl : l.latch.state = .open) (h : Refused input d e) :
    terminalExit e l ∈ refusalCodes := by
  rw [terminalExit_of_open hl]
  have hkind {m : Migr8Error} {k : ErrorKind} (hm : m.kind = k) (hk : k.exitCode ∈ refusalCodes) :
      m.exitCode ∈ refusalCodes := by
    rw [Migr8Error.exitCode, hm]
    exact hk
  cases h with
  | preflight hp =>
      obtain ⟨x, hx, hsource⟩ : Checked input.texts (preflight input input.capture.units) := preflight_checked _
      have he := hsource hlegible e (Settles.unique hx hp)
      have hexit := SourceError.exit he
      obtain ⟨m, rfl, -⟩ := he
      exact hexit
  | unfit _ hunfit =>
      cases hunfit with
      | damaged _ _ hm => exact hkind hm (by decide)
      | uninitialized _ _ hm => exact hkind hm (by decide)
      | unbound _ hv => exact verifyBindings_exit hv

end Refused

section Admitted

def readmittedRows (input : Input) (unit : CapturedUnit) (now : Timestamp) (rows : List HistoryRow) : List HistoryRow :=
  updateRows unit.id (admitAttempt unit.fingerprint unit.language input.config.runner now) rows

def Admits (input : Input) (unit : CapturedUnit) (d : Db) (q : Request) (s : Session) : Prop :=
  q.op = .log "admitted" (some unit.id) ∧ ∃ now, s.db.history = readmittedRows input unit now d.history

abbrev Reaches (input : Input) (unit : CapturedUnit) (d : Db) {α : Type} (m : Run α) (l : Local) (s : Session) : Prop :=
  Meets (serve input.adapter) (fun _ _ o => Answered o) (Admits input unit d) m l s

variable {p : Prop}

theorem updateActive_one (h : WellFormed d.history) (hr : row ∈ d.history) (ha : isActiveRow id row = true)
    (f : HistoryRow → HistoryRow) : (d.updateActive id f).1 = 1 := by
  have hnodup : (d.history.filter (isActiveRow id)).Nodup := (List.Nodup.of_map _ h.ids).filter _
  have hsame : (d.history.filter (isActiveRow id)).Perm [row] := by
    apply (List.perm_ext_iff_of_nodup hnodup (List.nodup_singleton row)).2
    intro r
    rw [List.mem_filter, List.mem_singleton]
    constructor
    · rintro ⟨hmem, hactive⟩
      exact active_unique h hmem hr (Bool.and_eq_true_iff.1 hactive).2 (Bool.and_eq_true_iff.1 ha).2
    · rintro rfl
      exact ⟨hr, ha⟩
  exact hsame.length_eq

theorem wp_updateActiveAttempt (hone : ∀ f, (d.updateActive unit.id f).1 = 1) (hs : AtRest d s) (hl : Poised l)
    (hA : Answers True A) :
    wp (serve c.adapter) A (fun _ _ => True) (updateActiveAttempt c unit) (Ends True (fun _ => True) (fun _ _ => False)
      fun _ _ s' => ∃ now, s'.db.history =
        updateRows unit.id (admitAttempt unit.fingerprint unit.language c.runner now) d.history) l s := by
  have hI (s : Session) : Asks (fun _ _ => True) s := fun _ _ _ => trivial
  apply Ends.bind (Q := fun _ l' s' => l'.latch.state = .open ∧ ∃ t now, s'.txn = some t ∧ t.aborted = false ∧
    t.working.history = updateRows unit.id (admitAttempt unit.fingerprint unit.language c.runner now) d.history)
  · apply Ends.bind (Ends.mono (begin_at_rest hs hl hA (hI s)) (fun _ _ _ h => h) (fun _ _ => trivial) fun _ _ h => h)
    rintro - l₁ s₁ ⟨-, hbegun⟩
    obtain ⟨-, hvisible, haborted⟩ := Fresh.shows hbegun.fresh hs
    have hlatch : l₁.latch.state = .open := by
      rw [hbegun.latch]
      exact hl.latch
    apply Ends.bind (Ends.guarded hlatch (Ends.mono (wp_write (fun _ => rfl) hbegun.fresh.writable haborted hA trivial)
      (fun _ _ _ h => h) (fun _ _ => trivial) ?_))
    · rintro affected l₂ s₂ ⟨rfl, -, o, t, ht, hta, hf⟩
      rw [hvisible, Except.ok.injEq] at hf
      have hn : affected = 1 := by rw [← hone, hf]
      rw [if_pos hn]
      have hw : t.working = (d.updateActive unit.id (admitAttempt unit.fingerprint unit.language c.runner o.now)).2 :=
        (congrArg Prod.snd hf).symm
      refine ⟨hlatch, t, o.now, ht, hta, ?_⟩
      rw [hw]
      rfl
    · rintro e l' ⟨o, err, hf⟩
      cases hf
  · rintro - l₁ s₁ ⟨hlatch, t, now, ht, hta, hrows⟩
    apply Ends.mono (commit_open ht hta hlatch hA (hI s₁)) ?_ (fun _ _ => trivial) fun _ _ h => h
    rintro - l₂ s₂ ⟨-, rfl⟩
    exact ⟨now, hrows⟩

/-- The unit that `--recover` names is the first one to run. -/
theorem pending_of_recoverable (hr : input.recoverId = some id) (h : Recoverable input id d row unit)
    (hp : planFor input d = .ok plan) : plan.active = some row ∧ ∃ rest, plan.pending = unit :: rest := by
  obtain ⟨hb, hc⟩ := (planFor_recover hr).1 hp
  have ha : plan.active = some row :=
    ((plan_planned hb).active row).2 ⟨mem_stored.2 h.stored, isActive_iff.1 h.active⟩
  refine ⟨ha, ?_⟩
  have hadmitted : Admitted (some id) plan := hc
  have hready := buildPlan_ready hb hadmitted
  rcases hready.next with ⟨hnone, -⟩ | ⟨row', unit', rest, ha', hrest, -, -, hid, -, -⟩
  · have hno := hnone row (mem_stored.2 h.stored)
    rw [h.active] at hno
    cases hno
  · rw [ha, Option.some.injEq] at ha'
    subst ha'
    refine ⟨rest, ?_⟩
    have hmem : unit' ∈ input.capture.units := by
      rw [hready.split, hrest]
      exact List.mem_append_right _ List.mem_cons_self
    have hsame : unit' = unit :=
      List.inj_on_of_nodup_map input.capture.distinct hmem h.captured (by rw [← hid, h.named, h.identity])
    rw [hrest, hsame]

theorem reaches_execute {rest : List CapturedUnit} (h : Recoverable input id d row unit) (hs : AtRest d s)
    (hl : Poised l) :
    Reaches input unit d (execute input (some row) (unit :: rest)) l s := by
  have hlog : wp (serve input.adapter) (fun _ _ o => Answered o) (fun _ _ => True)
      (World.perform (.log "migration_start" (some unit.id)))
      (Ends True (fun s' => s'.db = d) (fun _ _ => False) fun _ l' s' => l' = l ∧ AtRest d s') l s :=
    log_at_rest hs answers_answered trivial
  apply Meets.after (I := fun _ _ => True)
  apply wp_mono hlog
  intro r l₁ s₁ hr
  cases r with
  | error e => exact hr.2 trivial
  | ok u =>
      obtain ⟨rfl, hs₁⟩ := hr
      apply Meets.bind
      have hshape : WellFormed d.history := by
        obtain ⟨plan, hb⟩ := plan_of_rule h.rule
        exact ((validateSnapshotShape_ok_iff _).1 (buildPlan_shape hb)).2.1.perm (stored_perm d)
      have hone : ∀ f, (d.updateActive unit.id f).1 = 1 := by
        refine updateActive_one hshape h.stored ?_
        rw [isActiveRow, h.named, h.identity, h.active]
        simp
      have hkept : (some row).filter (fun r => r.migrationId == unit.id) = some row := by
        rw [Option.filter_some, h.named, h.identity]
        simp
      unfold runUnit
      rw [h.restartable]
      dsimp only
      rw [hkept]
      have hadmit : wp (serve input.adapter) (fun _ _ o => Answered o) (fun _ _ => True)
          (updateActiveAttempt input.config unit) (Ends True (fun _ => True) (fun _ _ => False)
            fun _ _ s' => ∃ now, s'.db.history = readmittedRows input unit now d.history) l₁ s₁ :=
        wp_updateActiveAttempt hone hs₁ hl answers_answered
      unfold runRestartable admitUnit
      apply Meets.after (I := fun _ _ => True)
      apply (wp_bind _ _).2
      apply wp_mono hadmit
      intro r l₂ s₂ hr
      cases r with
      | error e => exact hr.2 trivial
      | ok u =>
          have hsays : Reaches input unit d (World.perform (.log "admitted" (some unit.id))) l₂ s₂ :=
            Meets.request ⟨rfl, hr⟩
          exact Meets.bind hsays _

theorem not_refused {e : Exc} (h : Accepts input d d plan) : ¬ Refused input d e := by
  obtain ⟨m, -, hm⟩ := inspected_of_complete h.opened.complete
  intro href
  cases href with
  | preflight hp => cases Settles.unique h.checked hp
  | unfit _ hunfit =>
      cases hunfit with
      | damaged _ hd _ =>
          rw [hm] at hd
          cases hd
      | uninitialized _ hd _ =>
          rw [hm] at hd
          rcases hd with hd | hd <;> cases hd
      | unbound _ hv =>
          rw [(complete_of_inspected (by rw [hm])).2, Opening.Opened.bound h.opened] at hv
          cases hv

/-- When what `--recover` is for is there, a run whose calls are answered admits it. -/
theorem recovery_admits (hr : input.recoverId = some id) (h : Recoverable input id s.db row unit)
    (ho : AllAnswered os) :
    ∃ x ∈ asked input.adapter (Engine.run input) os s.afresh, Admits input unit s.db x.request x.before := by
  obtain ⟨plan, haccepts⟩ := (accepts_iff hr).2 ⟨row, unit, h⟩
  refine whole_meets (meets_run ⟨rfl, rfl⟩ fun s₀ hs₀ => ?_) fun n _ _ => ho n
  have hasks : Permits (fun _ _ => True) input s.db := ⟨fun _ _ _ _ _ => trivial, fun _ _ _ _ _ => trivial⟩
  have hsome : input.recoverId.isSome = true := by
    rw [hr]
    rfl
  have hunmarked (hn : input.recoverId = none) : markerFound s.db = none → s.db.marker = [] := by
    rw [hr] at hn
    cases hn
  apply Meets.after (I := fun _ _ => True)
  apply wp_mono (wp_openNamespace answers_answered hasks hs₀ ⟨rfl, rfl⟩ hunmarked)
  intro r l₁ s₁ hopen
  cases r with
  | error e =>
      exfalso
      cases hopen.2 trivial with
      | blocked hn _ _ =>
          rw [hr] at hn
          cases hn
      | broken _ hu _ => exact haccepts.opened.complete.inspected hu
      | refused _ hrefused => exact not_refused haccepts hrefused
  | ok u =>
      obtain ⟨-, d₁, ho₁, hs₁, hl₁⟩ := hopen
      obtain rfl := Opened.same hsome ho₁
      apply Meets.after (I := fun _ _ => True)
      apply wp_mono (Snapshots.wp_buildPlan (fun _ _ _ _ _ => trivial) answers_answered hs₁ hl₁ ho₁.complete)
      intro r l₂ s₂ hplan
      cases r with
      | error e =>
          obtain ⟨-, m, -, hm⟩ := hplan.2 trivial
          rw [haccepts.planned] at hm
          cases hm
      | ok plan' =>
          obtain ⟨hp, hs₂, hl₂⟩ := hplan
          obtain ⟨ha, rest, hrest⟩ := pending_of_recoverable hr h hp
          have hlog : wp (serve input.adapter) (fun _ _ o => Answered o) (fun _ _ => True) (World.perform (.log "plan"))
              (Ends True (fun s' => s'.db = s.db) (fun _ _ => False) fun _ l' s' => l' = l₂ ∧ AtRest s.db s') l₂ s₂ :=
            log_at_rest hs₂ answers_answered trivial
          apply Meets.after (I := fun _ _ => True)
          apply wp_mono hlog
          intro r l₃ s₃ hr₃
          cases r with
          | error e => exact hr₃.2 trivial
          | ok u =>
              obtain ⟨rfl, hs₃⟩ := hr₃
              dsimp only
              rw [ha, hrest]
              exact reaches_execute h hs₃ hl₂

end Admitted

section Example

open DurableHistory

def recoverRun : Input := { soleRun .sqlite .restartable (.ret .nothing) with recoverId := some "m1" }

def amendedRow : HistoryRow where
  seq := 1
  migrationId := "m1"
  fingerprint := "fp1:1111111111111111111111111111111111111111111111111111111111111111"
  firstFingerprint := "fp1:1111111111111111111111111111111111111111111111111111111111111111"
  language := "python"
  mode := "restartable"
  status := "ACTIVE"
  attempt := some 1
  startedAt := some 0
  lastAttemptAt := some 0
  finishedAt := none
  runner := {}

def amendedNamespace : Session where
  db := { (newNamespace .sqlite).db with history := [amendedRow] }

theorem recovery_admits_amended : ∃ x ∈ asked .sqlite (Engine.run recoverRun) (fun _ => {}) amendedNamespace.afresh,
    Admits recoverRun (soleUnit .restartable) amendedNamespace.db x.request x.before := by
  have hplan : (StateValidate.buildPlan recoverRun.capture (Snapshots.stored amendedNamespace.db)).isOk = true := by
    decide +kernel
  have hrule : Rule recoverRun.capture (Snapshots.stored amendedNamespace.db) := by
    cases hb : StateValidate.buildPlan recoverRun.capture (Snapshots.stored amendedNamespace.db) with
    | ok plan => exact rule_of_plan hb
    | error e =>
        rw [hb] at hplan
        cases hplan
  have h : Recoverable recoverRun "m1" amendedNamespace.db amendedRow (soleUnit .restartable) :=
    ⟨fun _ => rfl,
    ⟨fun name => by cases name <;> rfl, rfl⟩, by decide +kernel, hrule, List.mem_singleton_self _, rfl, rfl,
      List.mem_singleton_self _, rfl, rfl, rfl⟩
  exact recovery_admits rfl h fun _ => ⟨rfl, rfl⟩

end Example

end Migr8.Recovery
