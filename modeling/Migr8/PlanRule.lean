import Migr8.Plans

namespace Migr8.PlanRule

open Errors Model StateValidate Shape Forward Plans

structure RowValid (r : HistoryRow) : Prop where
  status : r.status = "ACTIVE" ∨ r.status = "SUCCESS"
  language : r.language = "sql" ∨ r.language = "python"
  mode : r.mode = "atomic" ∨ r.mode = "restartable"
  fingerprint : isSupportedFingerprint r.fingerprint = true
  firstFingerprint : isSupportedFingerprint r.firstFingerprint = true
  active : r.status = "ACTIVE" → r.mode = "restartable" ∧ (∃ n, r.attempt = some n ∧ 1 ≤ n) ∧
    r.finishedAt = none ∧ r.startedAt ≠ none
  success : r.status = "SUCCESS" → r.finishedAt ≠ none ∧ (r.mode = "atomic" → r.attempt = none) ∧
    (r.mode = "restartable" → ∃ n, r.attempt = some n ∧ 1 ≤ n)

structure HistoryValid (rows : List HistoryRow) : Prop where
  positions : (sortBySeq rows).map (·.seq) = positions rows.length
  ids : (rows.map (·.migrationId)).Nodup
  valid : ∀ r ∈ rows, RowValid r
  oneActive : ∀ r ∈ rows, ∀ r' ∈ rows, r.status = "ACTIVE" → r'.status = "ACTIVE" → r = r'
  lastActive : ∀ r ∈ rows, r.status = "ACTIVE" → ∀ r' ∈ rows, r'.seq ≤ r.seq

structure ProgressValid (rows : List HistoryRow) (progress : List ProgressRow) : Prop where
  keys : (progress.map fun p => (p.migrationId, p.progKey)).Nodup
  values : ∀ p ∈ progress, p.progValue ≠ ""
  owned : ∀ p ∈ progress, ∃ r ∈ rows, r.status = "ACTIVE" ∧ r.migrationId = p.migrationId

structure Agrees (units : List CapturedUnit) (rows : List HistoryRow) : Prop where
  fits : rows.length ≤ units.length
  success : ∀ r ∈ rows, r.status = "SUCCESS" → ∃ u ∈ units, (u.position : Int) = r.seq ∧ u.id = r.migrationId ∧
    u.language.value = r.language ∧ u.mode.value = r.mode ∧ u.fingerprint = r.fingerprint
  active : ∀ r ∈ rows, r.status = "ACTIVE" → ∃ u ∈ units, (u.position : Int) = r.seq ∧ u.id = r.migrationId ∧
    u.mode = .restartable ∧ (u.language.value = r.language ∨ u.fingerprint ≠ r.fingerprint)

/-- The rule by which a snapshot admits a plan of a capture. -/
structure Rule (capture : Capture) (snapshot : Snapshot) : Prop where
  layout : ∀ m, snapshot.metaRow = some m → m.layoutVersion = layoutVersion
  history : HistoryValid snapshot.history
  progress : ProgressValid snapshot.history snapshot.progress
  agrees : Agrees capture.units snapshot.history

theorem isActive_iff {r : HistoryRow} : r.isActive = true ↔ r.status = "ACTIVE" := beq_iff_eq

theorem isSuccess_iff {r : HistoryRow} : r.isSuccess = true ↔ r.status = "SUCCESS" := beq_iff_eq

theorem attemptCounted_iff {a : Option Int} : attemptCounted a = true ↔ ∃ n, a = some n ∧ 1 ≤ n := by
  cases a with
  | none => simp [attemptCounted]
  | some n => simp [attemptCounted]

theorem activeFields_iff {r : HistoryRow} : ActiveFields r ↔ r.mode = "restartable" ∧
    (∃ n, r.attempt = some n ∧ 1 ≤ n) ∧ r.finishedAt = none ∧ r.startedAt ≠ none := by
  rw [← attemptCounted_iff, ← Option.isSome_iff_ne_none]
  constructor
  · intro h
    exact ⟨h.mode, h.attempt, h.finished, h.started⟩
  · intro h
    exact ⟨h.1, h.2.1, h.2.2.1, h.2.2.2⟩

theorem checkSuccessRow_ok_iff {r : HistoryRow} : checkSuccessRow r = .ok () ↔ r.finishedAt ≠ none ∧
    (r.mode = "atomic" → r.attempt = none) ∧ (r.mode = "restartable" → ∃ n, r.attempt = some n ∧ 1 ≤ n) := by
  rw [checkSuccessRow, ← attemptCounted_iff]
  split
  · next hf =>
      refine ⟨fun h => ?_, fun h => absurd (Option.isNone_iff_eq_none.1 hf) h.1⟩
      cases h
  · next hf =>
      have hf : r.finishedAt ≠ none := fun he => hf (by rw [he]; rfl)
      split
      · next ha =>
          obtain ⟨hm, hs⟩ := Bool.and_eq_true_iff.1 ha
          refine ⟨fun h => ?_, fun h => ?_⟩
          · cases h
          · rw [h.2.1 (of_decide_eq_true hm)] at hs
            cases hs
      · next ha =>
          have ha : r.mode = "atomic" → r.attempt = none := by
            intro hm
            by_contra hn
            exact ha (Bool.and_eq_true_iff.2 ⟨decide_eq_true hm, Option.isSome_iff_ne_none.2 hn⟩)
          split
          · next hr =>
              obtain ⟨hm, hs⟩ := Bool.and_eq_true_iff.1 hr
              refine ⟨fun h => ?_, fun h => ?_⟩
              · cases h
              · rw [h.2.2 (of_decide_eq_true hm)] at hs
                cases hs
          · next hr =>
              have hr : r.mode = "restartable" → attemptCounted r.attempt = true := by
                intro hm
                by_contra hn
                exact hr (Bool.and_eq_true_iff.2 ⟨decide_eq_true hm, by simpa using hn⟩)
              exact ⟨fun _ => ⟨hf, ha, hr⟩, fun _ => rfl⟩

theorem rowValid_iff {r : HistoryRow} : validateRow r = .ok () ↔ RowValid r := by
  have hstatus : (r.isActive || r.isSuccess) = true ↔ r.status = "ACTIVE" ∨ r.status = "SUCCESS" := by
    rw [Bool.or_eq_true, isActive_iff, isSuccess_iff]
  rw [validateRow_ok_iff, hstatus]
  constructor
  · rintro ⟨hs, hl, hm, hf, hff, hrest⟩
    refine ⟨hs, hl, hm, hf, hff, fun ha => ?_, fun hsucc => ?_⟩
    · rw [if_pos (isActive_iff.2 ha), checkActiveRow_ok_iff, activeFields_iff] at hrest
      exact hrest
    · have hna : r.isActive = false := by
        rw [HistoryRow.isActive, hsucc]
        decide
      rw [hna, if_neg Bool.false_ne_true, checkSuccessRow_ok_iff] at hrest
      exact hrest
  · intro h
    refine ⟨h.status, h.language, h.mode, h.fingerprint, h.firstFingerprint, ?_⟩
    by_cases ha : r.isActive = true
    · rw [if_pos ha, checkActiveRow_ok_iff, activeFields_iff]
      exact h.active (isActive_iff.1 ha)
    · rw [if_neg ha, checkSuccessRow_ok_iff]
      apply h.success
      exact h.status.resolve_left fun hs => ha (isActive_iff.2 hs)

theorem historyValid_iff {rows : List HistoryRow} : WellFormed rows ↔ HistoryValid rows := by
  have hlen : (sortBySeq rows).length = rows.length := (sortBySeq_perm rows).length_eq
  constructor
  · intro h
    refine ⟨?_, h.ids, fun r hr => rowValid_iff.1 (h.valid r hr), ?_, ?_⟩
    · rw [← hlen]
      exact map_seq_eq_iff.2 h.seqs
    · intro r hr r' hr' ha ha'
      exact active_unique h hr hr' (isActive_iff.2 ha) (isActive_iff.2 ha')
    · intro r hr ha r' hr'
      rw [h.active r hr (isActive_iff.2 ha)]
      exact (seq_bounds h hr').2
  · intro h
    have hseqs : (rows.map (·.seq)).Perm (positions rows.length) := by
      apply map_seq_eq_iff.1
      rw [hlen]
      exact h.positions
    refine ⟨h.ids, hseqs, fun r hr => rowValid_iff.2 (h.valid r hr), fun r hr ha => ?_⟩
    have hmem : r.seq ∈ positions rows.length := hseqs.mem_iff.1 (List.mem_map_of_mem hr)
    have hpos := mem_positions.1 hmem
    have hlast : (rows.length : Int) ∈ positions rows.length := mem_positions.2 (by omega)
    obtain ⟨r', hr', he⟩ := List.mem_map.1 (hseqs.mem_iff.2 hlast)
    have hle := h.lastActive r hr (isActive_iff.1 ha) r' hr'
    omega

theorem progressValid_iff {rows : List HistoryRow} {progress : List ProgressRow} :
    ProgressOk rows progress ↔ ProgressValid rows progress := by
  constructor
  · intro h
    refine ⟨h.keys, h.values, fun p hp => ?_⟩
    obtain ⟨r, hr, hi, ha⟩ := h.owners p hp
    exact ⟨r, hr, isActive_iff.1 ha, hi⟩
  · intro h
    refine ⟨h.keys, h.values, fun p hp => ?_⟩
    obtain ⟨r, hr, ha, hi⟩ := h.owned p hp
    exact ⟨r, hr, hi, isActive_iff.2 ha⟩

/-- What is checked without a manifest. -/
theorem validateSnapshotShape_rule {snapshot : Snapshot} : validateSnapshotShape snapshot = .ok () ↔
    (∀ m, snapshot.metaRow = some m → m.layoutVersion = layoutVersion) ∧ HistoryValid snapshot.history ∧
      ProgressValid snapshot.history snapshot.progress := by
  rw [validateSnapshotShape_ok_iff, historyValid_iff, progressValid_iff]
  rfl

theorem unit_of_getElem? {capture : Capture} {i : Int} {u : CapturedUnit} (h1 : 1 ≤ i)
    (hu : capture.units[(i - 1).toNat]? = some u) : u ∈ capture.units ∧ (u.position : Int) = i := by
  have hp : (capture.units.map (·.position))[(i - 1).toNat]? = some u.position := by
    rw [List.getElem?_map, hu]
    rfl
  obtain ⟨hi, -⟩ := List.getElem?_eq_some_iff.1 hu
  rw [capture.positions, List.getElem?_range' hi] at hp
  have hp := Option.some.inj hp
  exact ⟨List.mem_of_getElem? hu, by omega⟩

theorem getElem?_of_unit {capture : Capture} {i : Int} {u : CapturedUnit} (hu : u ∈ capture.units)
    (hi : (u.position : Int) = i) : capture.units[(i - 1).toNat]? = some u := by
  obtain ⟨j, hj⟩ := List.mem_iff_getElem?.1 hu
  obtain ⟨hlt, -⟩ := List.getElem?_eq_some_iff.1 hj
  have hp : (capture.units.map (·.position))[j]? = some u.position := by
    rw [List.getElem?_map, hj]
    rfl
  rw [capture.positions, List.getElem?_range' hlt] at hp
  have hp := Option.some.inj hp
  rw [show (i - 1).toNat = j by omega]
  exact hj

theorem checkSuccess_ok_iff {units : List CapturedUnit} {row : HistoryRow} {u : CapturedUnit}
    (hu : units[(row.seq - 1).toNat]? = some u) : checkSuccess units row = .ok () ↔
      u.id = row.migrationId ∧ u.language.value = row.language ∧ u.mode.value = row.mode ∧
        u.fingerprint = row.fingerprint := by
  rw [checkSuccess, hu]
  dsimp only
  split
  · next h => exact ⟨nofun, fun he => absurd he.1 h⟩
  · next hid =>
      split
      · next h => exact ⟨nofun, fun he => absurd he.2.1.symm h⟩
      · next hl =>
          split
          · next h => exact ⟨nofun, fun he => absurd he.2.2.1.symm h⟩
          · next hm =>
              split
              · next h => exact ⟨nofun, fun he => absurd he.2.2.2.symm h⟩
              · next hf =>
                  push Not at hid hl hm hf
                  exact ⟨fun _ => ⟨hid, hl.symm, hm.symm, hf.symm⟩, fun _ => rfl⟩

theorem checkSuccesses_ok_iff {units : List CapturedUnit} {rows : List HistoryRow} :
    checkSuccesses units rows = .ok () ↔ ∀ r ∈ rows, checkSuccess units r = .ok () := by
  induction rows with
  | nil => exact ⟨fun _ r hr => absurd hr List.not_mem_nil, fun _ => rfl⟩
  | cons row rows ih => rw [checkSuccesses, seq_ok_iff, ih, List.forall_mem_cons]

theorem checkActive_ok_iff {units : List CapturedUnit} {row : HistoryRow} {u : CapturedUnit}
    (hu : units[(row.seq - 1).toNat]? = some u) : (∃ changed, checkActive units row = .ok changed) ↔
      u.id = row.migrationId ∧ u.mode = .restartable ∧
        (u.language.value = row.language ∨ u.fingerprint ≠ row.fingerprint) := by
  constructor
  · rintro ⟨changed, h⟩
    obtain ⟨hid, hmode, -, hlang⟩ := checkActive_ok h hu
    refine ⟨hid, hmode, ?_⟩
    by_cases hf : u.fingerprint = row.fingerprint
    · exact .inl (hlang hf.symm).symm
    · exact .inr hf
  · rintro ⟨hid, hmode, hlang⟩
    refine ⟨row.fingerprint != u.fingerprint, ?_⟩
    have hnot : ¬(row.language ≠ u.language.value ∧ row.fingerprint = u.fingerprint) := by
      rintro ⟨hl, hf⟩
      exact hlang.elim (fun h => hl h.symm) fun h => h hf.symm
    rw [checkActive, hu]
    dsimp only
    rw [if_neg (not_not.2 hid), if_neg hnot, if_neg (not_not.2 hmode)]

theorem find?_active {rows : List HistoryRow} (h : WellFormed rows) {r : HistoryRow} (hr : r ∈ rows)
    (ha : r.isActive = true) : (sortBySeq rows).find? (·.isActive) = some r := by
  have hp := sortBySeq_perm rows
  cases hf : (sortBySeq rows).find? (·.isActive) with
  | none => exact absurd ha (List.find?_eq_none.1 hf r (hp.mem_iff.2 hr))
  | some x =>
      have hx := hp.mem_iff.1 (List.mem_of_find?_eq_some hf)
      rw [active_unique h hx hr (List.find?_some hf) ha]

section Plan

variable {capture : Capture} {snapshot : Snapshot}

def planOf (capture : Capture) (snapshot : Snapshot) (changed : Bool) : Plan where
  capture := capture
  snapshot := snapshot
  successCount := ((sortBySeq snapshot.history).filter (·.isSuccess)).length
  active := (sortBySeq snapshot.history).find? (·.isActive)
  pending := capture.units.drop ((sortBySeq snapshot.history).filter (·.isSuccess)).length
  activeFingerprintChanged := changed

def activeChanged (units : List CapturedUnit) : Option HistoryRow → Except Migr8Error Bool
  | none => .ok false
  | some row => checkActive units row

/-- What is left of `build_plan` behind the checks that ignore the manifest. -/
theorem buildPlan_eq (hs : validateSnapshotShape snapshot = .ok ())
    (hl : snapshot.history.length ≤ capture.units.length) : buildPlan capture snapshot = (do
      checkSuccesses capture.units ((sortBySeq snapshot.history).filter (·.isSuccess))
      let changed ← activeChanged capture.units ((sortBySeq snapshot.history).find? (·.isActive))
      return planOf capture snapshot changed) := by
  have hnone : (sortBySeq snapshot.history)[capture.units.length]? = none := by
    rw [List.getElem?_eq_none_iff, (sortBySeq_perm snapshot.history).length_eq]
    exact hl
  rw [buildPlan, hs]
  simp only [hnone, planOf]
  cases (sortBySeq snapshot.history).find? (·.isActive) with
  | none => rfl
  | some row => rfl

theorem buildPlan_shape {plan : Plan} (h : buildPlan capture snapshot = .ok plan) :
    validateSnapshotShape snapshot = .ok () := by
  rw [buildPlan, bind_ok_iff] at h
  obtain ⟨⟨⟩, hs, -⟩ := h
  exact hs

theorem buildPlan_planOf {plan : Plan} (h : buildPlan capture snapshot = .ok plan) :
    plan = planOf capture snapshot plan.activeFingerprintChanged := by
  rw [buildPlan_eq (buildPlan_shape h) (buildPlan_ok h).2.1, bind_ok_iff] at h
  obtain ⟨⟨⟩, -, h⟩ := h
  rw [bind_ok_iff] at h
  obtain ⟨changed, -, h⟩ := h
  cases h
  rfl

theorem position_pos (h : HistoryValid snapshot.history) {r : HistoryRow} (hr : r ∈ snapshot.history) : 1 ≤ r.seq :=
  (seq_bounds (historyValid_iff.2 h) hr).1

theorem rule_of_plan {plan : Plan} (h : buildPlan capture snapshot = .ok plan) : Rule capture snapshot := by
  obtain ⟨hlayout, hhist, hprog⟩ := validateSnapshotShape_rule.1 (buildPlan_shape h)
  obtain ⟨hw, hlen, hsucc, -, hact, hcheck⟩ := buildPlan_ok h
  refine ⟨hlayout, hhist, hprog, hlen, fun r hr hs => ?_, fun r hr ha => ?_⟩
  · obtain ⟨u, hu⟩ := unit_at hw hlen hr
    obtain ⟨hm, hp⟩ := unit_of_getElem? (position_pos hhist hr) hu
    exact ⟨u, hm, hp, (checkSuccess_ok_iff hu).1 (hsucc r hr (isSuccess_iff.2 hs))⟩
  · obtain ⟨u, hu⟩ := unit_at hw hlen hr
    obtain ⟨hm, hp⟩ := unit_of_getElem? (position_pos hhist hr) hu
    have hfind : plan.active = some r := by
      rw [hact]
      exact find?_active hw hr (isActive_iff.2 ha)
    exact ⟨u, hm, hp, (checkActive_ok_iff hu).1 ⟨_, hcheck r hfind⟩⟩

theorem plan_of_rule (h : Rule capture snapshot) : ∃ plan, buildPlan capture snapshot = .ok plan := by
  have hshape := validateSnapshotShape_rule.2 ⟨h.layout, h.history, h.progress⟩
  have hp := sortBySeq_perm snapshot.history
  have hsucc : checkSuccesses capture.units ((sortBySeq snapshot.history).filter (·.isSuccess)) = .ok () := by
    apply checkSuccesses_ok_iff.2
    intro r hr
    obtain ⟨hr, hs⟩ := List.mem_filter.1 hr
    obtain ⟨u, hu, hi, hagree⟩ := h.agrees.success r (hp.mem_iff.1 hr) (isSuccess_iff.1 hs)
    exact (checkSuccess_ok_iff (getElem?_of_unit hu hi)).2 hagree
  have hact : ∃ changed, activeChanged capture.units ((sortBySeq snapshot.history).find? (·.isActive)) =
      .ok changed := by
    cases hf : (sortBySeq snapshot.history).find? (·.isActive) with
    | none => exact ⟨false, rfl⟩
    | some r =>
        have hr := hp.mem_iff.1 (List.mem_of_find?_eq_some hf)
        have ha := isActive_iff.1 (List.find?_some hf)
        obtain ⟨u, hu, hi, hagree⟩ := h.agrees.active r hr ha
        exact (checkActive_ok_iff (getElem?_of_unit hu hi)).2 hagree
  obtain ⟨changed, hc⟩ := hact
  refine ⟨planOf capture snapshot changed, ?_⟩
  rw [buildPlan_eq hshape h.agrees.fits, hsucc, hc]
  rfl

structure Planned (capture : Capture) (snapshot : Snapshot) (plan : Plan) : Prop where
  successCount : plan.successCount = (snapshot.history.filter (·.isSuccess)).length
  pending : plan.pending = capture.units.drop plan.successCount
  active : ∀ r, plan.active = some r ↔ r ∈ snapshot.history ∧ r.status = "ACTIVE"
  changed : plan.activeFingerprintChanged = true ↔ ∃ r u, plan.active = some r ∧ u ∈ capture.units ∧
    (u.position : Int) = r.seq ∧ r.fingerprint ≠ u.fingerprint

theorem unchanged_of_no_active {plan : Plan} (h : buildPlan capture snapshot = .ok plan) (ha : plan.active = none) :
    plan.activeFingerprintChanged = false := by
  rw [buildPlan_planOf h] at ha
  rw [buildPlan_eq (buildPlan_shape h) (buildPlan_ok h).2.1] at h
  obtain ⟨⟨⟩, -, h⟩ := bind_ok_iff.1 h
  obtain ⟨changed, hc, h⟩ := bind_ok_iff.1 h
  cases h
  rw [show (sortBySeq snapshot.history).find? (·.isActive) = none from ha] at hc
  cases hc
  rfl

theorem plan_planned {plan : Plan} (h : buildPlan capture snapshot = .ok plan) : Planned capture snapshot plan := by
  obtain ⟨hw, hlen, -, hpend, hact, hcheck⟩ := buildPlan_ok h
  have hhist := historyValid_iff.1 hw
  have hp := sortBySeq_perm snapshot.history
  have hcount : plan.successCount = (snapshot.history.filter (·.isSuccess)).length := by
    rw [buildPlan_planOf h]
    exact (hp.filter _).length_eq
  have hactive (r : HistoryRow) : plan.active = some r ↔ r ∈ snapshot.history ∧ r.status = "ACTIVE" := by
    rw [hact]
    constructor
    · intro hf
      exact ⟨hp.mem_iff.1 (List.mem_of_find?_eq_some hf), isActive_iff.1 (List.find?_some hf)⟩
    · intro hr
      exact find?_active hw hr.1 (isActive_iff.2 hr.2)
  refine ⟨hcount, hcount ▸ hpend, hactive, ?_⟩
  cases ha : plan.active with
  | none =>
      rw [unchanged_of_no_active h ha]
      constructor
      · intro he
        cases he
      · rintro ⟨r, u, he, -⟩
        cases he
  | some r =>
      have hr := ((hactive r).1 ha).1
      obtain ⟨u, hu⟩ := unit_at hw hlen hr
      obtain ⟨-, -, hchanged, -⟩ := checkActive_ok (hcheck r ha) hu
      obtain ⟨hm, hi⟩ := unit_of_getElem? (position_pos hhist hr) hu
      rw [hchanged]
      constructor
      · intro hne
        exact ⟨r, u, rfl, hm, hi, hne⟩
      · rintro ⟨r', u', he, hm', hi', hne⟩
        cases he
        have hu' := getElem?_of_unit hm' hi'
        rw [hu] at hu'
        cases hu'
        exact hne

end Plan

end Migr8.PlanRule
