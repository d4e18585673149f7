import Migr8.PlanRule
import Migr8.Lib.Framing

namespace Migr8.Verdicts

open Errors Model StateValidate Shape Plans PlanRule

section Errors

variable {α β : Type} {k : ErrorKind}

def Fails (k : ErrorKind) (x : Except Migr8Error α) : Prop := ∀ e, x = .error e → e.kind = k

theorem Fails.ok (a : α) : Fails k (.ok a) := by
  intro e h
  cases h

theorem Fails.damaged (message : String) : Fails .metadataDamaged (.error (damaged message) : Except Migr8Error α) := by
  intro e h
  cases h
  rfl

theorem Fails.invalid (message : String) : Fails .validation (.error (invalid message) : Except Migr8Error α) := by
  intro e h
  cases h
  rfl

theorem Fails.ite {p : Prop} [Decidable p] {x y : Except Migr8Error α} (hx : Fails k x) (hy : Fails k y) :
    Fails k (if p then x else y) := by
  by_cases hp : p
  · rw [if_pos hp]
    exact hx
  · rw [if_neg hp]
    exact hy

theorem Fails.bind {x : Except Migr8Error α} {f : α → Except Migr8Error β} (hx : Fails k x)
    (hf : ∀ a, Fails k (f a)) : Fails k (x >>= f) := by
  cases x with
  | ok a => exact hf a
  | error e =>
      intro e' h
      cases h
      exact hx e rfl

theorem checkIdentities_fails (seen rows : List HistoryRow) : Fails .metadataDamaged (checkIdentities seen rows) := by
  induction rows generalizing seen with
  | nil => exact Fails.ok ()
  | cons row rows ih =>
      unfold checkIdentities
      apply Fails.ite (Fails.damaged _)
      cases seen.find? (fun r => r.seq == row.seq) with
      | some other => exact Fails.damaged _
      | none => exact Fails.ite (Fails.damaged _) (ih _)

theorem checkConsecutive_fails (i : Nat) (rows : List HistoryRow) :
    Fails .metadataDamaged (checkConsecutive i rows) := by
  induction rows generalizing i with
  | nil => exact Fails.ok ()
  | cons row rows ih => exact Fails.ite (Fails.damaged _) (ih _)

theorem checkFingerprint_fails (row : HistoryRow) (label value : String) :
    Fails .metadataDamaged (checkFingerprint row label value) :=
  Fails.ite (Fails.damaged _) (Fails.ite (Fails.damaged _) (Fails.ok ()))

theorem checkActiveRow_fails (row : HistoryRow) : Fails .metadataDamaged (checkActiveRow row) :=
  Fails.ite (Fails.damaged _) (Fails.ite (Fails.damaged _) (Fails.ite (Fails.damaged _)
    (Fails.ite (Fails.damaged _) (Fails.ok ()))))

theorem checkSuccessRow_fails (row : HistoryRow) : Fails .metadataDamaged (checkSuccessRow row) :=
  Fails.ite (Fails.damaged _) (Fails.ite (Fails.damaged _) (Fails.ite (Fails.damaged _) (Fails.ok ())))

theorem validateRow_fails (row : HistoryRow) : Fails .metadataDamaged (validateRow row) := by
  apply Fails.ite (Fails.damaged _)
  apply Fails.ite (Fails.damaged _)
  apply Fails.ite (Fails.damaged _)
  apply Fails.bind (checkFingerprint_fails _ _ _)
  intro _
  apply Fails.bind (checkFingerprint_fails _ _ _)
  intro _
  exact Fails.ite (checkActiveRow_fails row) (checkSuccessRow_fails row)

theorem validateRows_fails (rows : List HistoryRow) : Fails .metadataDamaged (validateRows rows) := by
  induction rows with
  | nil => exact Fails.ok ()
  | cons row rows ih => exact Fails.bind (validateRow_fails row) fun _ => ih

theorem checkActivePosition_fails (rows : List HistoryRow) : Fails .metadataDamaged (checkActivePosition rows) := by
  unfold checkActivePosition
  split
  · exact Fails.ok ()
  · exact Fails.ite (Fails.damaged _) (Fails.ok ())
  · exact Fails.damaged _

theorem checkProgress_fails (rows : List HistoryRow) (seen : List (String × String)) (progress : List ProgressRow) :
    Fails .metadataDamaged (checkProgress rows seen progress) := by
  induction progress generalizing seen with
  | nil => exact Fails.ok ()
  | cons p progress ih =>
      unfold checkProgress
      apply Fails.ite (Fails.damaged _)
      cases rows.reverse.find? (fun r => r.migrationId == p.migrationId) with
      | none => exact Fails.damaged _
      | some owner => exact Fails.ite (Fails.damaged _) (Fails.ite (Fails.damaged _) (ih _))

theorem checkLayout_fails (marker : Option MetaRow) : Fails .metadataDamaged (checkLayout marker) := by
  cases marker with
  | none => exact Fails.ok ()
  | some m => exact Fails.ite (Fails.damaged _) (Fails.ok ())

/-- What is wrong regardless of the manifest is damage. -/
theorem validateSnapshotShape_fails (snapshot : Snapshot) :
    Fails .metadataDamaged (validateSnapshotShape snapshot) := by
  apply Fails.bind (checkLayout_fails _)
  intro _
  apply Fails.bind (checkIdentities_fails _ _)
  intro _
  apply Fails.bind (checkConsecutive_fails _ _)
  intro _
  apply Fails.bind (validateRows_fails _)
  intro _
  apply Fails.bind (checkActivePosition_fails _)
  intro _
  exact checkProgress_fails _ _ _

theorem checkSuccess_fails (units : List CapturedUnit) (row : HistoryRow) :
    Fails .validation (checkSuccess units row) := by
  unfold checkSuccess
  cases units[(row.seq - 1).toNat]? with
  | none => exact Fails.ok ()
  | some u =>
      exact Fails.ite (Fails.invalid _) (Fails.ite (Fails.invalid _) (Fails.ite (Fails.invalid _)
        (Fails.ite (Fails.invalid _) (Fails.ok ()))))

theorem checkSuccesses_fails (units : List CapturedUnit) (rows : List HistoryRow) :
    Fails .validation (checkSuccesses units rows) := by
  induction rows with
  | nil => exact Fails.ok ()
  | cons row rows ih => exact Fails.bind (checkSuccess_fails units row) fun _ => ih

theorem checkActive_fails (units : List CapturedUnit) (row : HistoryRow) :
    Fails .validation (checkActive units row) := by
  unfold checkActive
  cases units[(row.seq - 1).toNat]? with
  | none => exact Fails.ok _
  | some u => exact Fails.ite (Fails.invalid _) (Fails.ite (Fails.invalid _) (Fails.ite (Fails.invalid _) (Fails.ok _)))

theorem activeChanged_fails (units : List CapturedUnit) (active : Option HistoryRow) :
    Fails .validation (activeChanged units active) := by
  cases active with
  | none => exact Fails.ok _
  | some row => exact checkActive_fails units row

end Errors

section Plan

variable {capture : Capture} {snapshot : Snapshot}

theorem buildPlan_long (hs : validateSnapshotShape snapshot = .ok ())
    (hl : capture.units.length < snapshot.history.length) : ∃ e, buildPlan capture snapshot = .error e ∧
      e.kind = .validation := by
  have hlt : capture.units.length < (sortBySeq snapshot.history).length := by
    rw [(sortBySeq_perm snapshot.history).length_eq]
    exact hl
  rw [buildPlan, hs]
  simp only [List.getElem?_eq_getElem hlt]
  exact ⟨_, rfl, rfl⟩

/-- Behind the checks that ignore the manifest, every refusal is a disagreement
with it. -/
theorem buildPlan_fails (hs : validateSnapshotShape snapshot = .ok ()) :
    Fails .validation (buildPlan capture snapshot) := by
  by_cases hl : snapshot.history.length ≤ capture.units.length
  · rw [buildPlan_eq hs hl]
    apply Fails.bind (checkSuccesses_fails _ _)
    intro _
    apply Fails.bind (activeChanged_fails _ _)
    intro changed
    exact Fails.ok _
  · obtain ⟨e, he, hk⟩ : ∃ e, buildPlan capture snapshot = .error e ∧ e.kind = .validation :=
      buildPlan_long hs (Nat.lt_of_not_le hl)
    intro e' he'
    rw [he] at he'
    cases he'
    exact hk

theorem buildPlan_of_shape_error {e : Migr8Error} (hs : validateSnapshotShape snapshot = .error e) :
    buildPlan capture snapshot = .error e := by
  rw [buildPlan, hs]
  rfl

/-- The manifest has no part in the verdict that the metadata is damaged. -/
def Damaged (capture : Capture) (snapshot : Snapshot) : Prop :=
  ∃ e, buildPlan capture snapshot = .error e ∧ e.kind = .metadataDamaged

theorem damaged_iff : Damaged capture snapshot ↔ validateSnapshotShape snapshot ≠ .ok () := by
  constructor
  · rintro ⟨e, he, hk⟩ hs
    rw [buildPlan_fails hs e he] at hk
    cases hk
  · intro hs
    cases hv : validateSnapshotShape snapshot with
    | ok _ => exact absurd hv hs
    | error e => exact ⟨e, buildPlan_of_shape_error hv, validateSnapshotShape_fails snapshot e hv⟩

/-- What `build_plan` decides, without the snapshot it keeps and the wording of a
refusal. -/
def verdict : Except Migr8Error Plan → Except ErrorKind (Nat × Option HistoryRow × List CapturedUnit × Bool)
  | .ok plan => .ok (plan.successCount, plan.active, plan.pending, plan.activeFingerprintChanged)
  | .error e => .error e.kind

theorem verdict_bind {α : Type} {x : Except Migr8Error α} {f g : α → Except Migr8Error Plan}
    (h : ∀ a, verdict (f a) = verdict (g a)) : verdict (x >>= f) = verdict (x >>= g) := by
  cases x with
  | ok a => exact h a
  | error e => rfl

theorem sortBySeq_congr {rows rows' : List HistoryRow} (h : WellFormed rows) (hp : rows.Perm rows') :
    sortBySeq rows = sortBySeq rows' := by
  apply Lib.Framing.insertionSort_congr hp
  intro a ha b hb hab hba
  exact eq_of_seq h ha hb (by omega)

/-- The order of the stored rows changes nothing. -/
theorem verdict_perm {snapshot' : Snapshot} (hh : snapshot.history.Perm snapshot'.history)
    (hp : snapshot.progress.Perm snapshot'.progress) (hm : snapshot.metaRow = snapshot'.metaRow) :
    verdict (buildPlan capture snapshot) = verdict (buildPlan capture snapshot') := by
  have hshape : validateSnapshotShape snapshot = .ok () ↔ validateSnapshotShape snapshot' = .ok () := by
    rw [validateSnapshotShape_ok_iff, validateSnapshotShape_ok_iff, hm]
    refine and_congr_right fun _ => ⟨fun h => ⟨h.1.perm hh, h.2.perm hh hp⟩, fun h => ?_⟩
    exact ⟨h.1.perm hh.symm, h.2.perm hh.symm hp.symm⟩
  by_cases hs : validateSnapshotShape snapshot = .ok ()
  · have hs' := hshape.1 hs
    have hsort := sortBySeq_congr ((validateSnapshotShape_ok_iff snapshot).1 hs).2.1 hh
    by_cases hl : snapshot.history.length ≤ capture.units.length
    · rw [buildPlan_eq hs hl, buildPlan_eq hs' (hh.length_eq ▸ hl), hsort]
      apply verdict_bind
      intro _
      apply verdict_bind
      intro changed
      simp only [planOf, hsort]
      rfl
    · have hlong : capture.units.length < snapshot.history.length := Nat.lt_of_not_le hl
      obtain ⟨e, he, hk⟩ := buildPlan_long hs hlong
      obtain ⟨e', he', hk'⟩ := buildPlan_long hs' (hh.length_eq ▸ hlong)
      rw [he, he', verdict, verdict, hk, hk']
  · obtain ⟨e, he, hk⟩ : Damaged capture snapshot := damaged_iff.2 hs
    obtain ⟨e', he', hk'⟩ : Damaged capture snapshot' := damaged_iff.2 fun hs' => hs (hshape.2 hs')
    rw [he, he', verdict, verdict, hk, hk']

/-- `build_plan` is the declarative rule: it returns a plan of exactly the
snapshots the rule admits, the plan says what the rule says, every unit it looks
up exists, and the order of the rows is immaterial. -/
theorem buildPlan_is_rule (capture : Capture) (snapshot : Snapshot) :
    ((∃ plan, buildPlan capture snapshot = .ok plan) ↔ Rule capture snapshot) ∧
    (∀ plan, buildPlan capture snapshot = .ok plan → Planned capture snapshot plan) ∧
    (validateSnapshotShape snapshot = .ok () → snapshot.history.length ≤ capture.units.length →
      ∀ r ∈ snapshot.history, 1 ≤ r.seq ∧ ∃ u, capture.units[(r.seq - 1).toNat]? = some u) ∧
    ∀ snapshot' : Snapshot, snapshot.history.Perm snapshot'.history → snapshot.progress.Perm snapshot'.progress →
      snapshot.metaRow = snapshot'.metaRow →
      verdict (buildPlan capture snapshot) = verdict (buildPlan capture snapshot') := by
  refine ⟨⟨?_, plan_of_rule⟩, fun plan => plan_planned, fun hs hl r hr => ?_, fun snapshot' => verdict_perm⟩
  · rintro ⟨plan, h⟩
    exact rule_of_plan h
  · have hw := ((validateSnapshotShape_ok_iff snapshot).1 hs).2.1
    exact ⟨(seq_bounds hw hr).1, unit_at hw hl hr⟩

end Plan

section Manifest

variable {snapshot : Snapshot}

def languageOf (r : HistoryRow) : Language := if r.language = "sql" then .sql else .python

def modeOf (r : HistoryRow) : Mode := if r.mode = "atomic" then .atomic else .restartable

def unitOf (r : HistoryRow) : CapturedUnit where
  id := r.migrationId
  position := r.seq.toNat
  language := languageOf r
  mode := modeOf r
  fingerprint := r.fingerprint

theorem languageOf_value {r : HistoryRow} (h : RowValid r) : (languageOf r).value = r.language := by
  unfold languageOf
  by_cases hl : r.language = "sql"
  · rw [if_pos hl, hl]
    rfl
  · rw [if_neg hl, h.language.resolve_left hl]
    rfl

theorem modeOf_value {r : HistoryRow} (h : RowValid r) : (modeOf r).value = r.mode := by
  unfold modeOf
  by_cases hm : r.mode = "atomic"
  · rw [if_pos hm, hm]
    rfl
  · rw [if_neg hm, h.mode.resolve_left hm]
    rfl

def manifestOf (rows : List HistoryRow) (h : HistoryValid rows) : Capture where
  units := (sortBySeq rows).map unitOf
  positions := by
    have hlen := (sortBySeq_perm rows).length_eq
    have hp : ((sortBySeq rows).map (·.seq)).map Int.toNat = (positions rows.length).map Int.toNat := by
      rw [h.positions]
    rw [List.map_map, Shape.positions, List.map_map] at hp
    rw [List.map_map, List.length_map, hlen]
    refine Eq.trans hp ?_
    exact (List.map_congr_left fun n _ => rfl).trans (List.map_id _)
  distinct := by
    rw [List.map_map]
    exact (((sortBySeq_perm rows).map _).nodup_iff).2 h.ids
  fingerprinted := by
    intro u hu
    obtain ⟨r, hr, rfl⟩ := List.mem_map.1 hu
    exact (h.valid r ((sortBySeq_perm rows).mem_iff.1 hr)).fingerprint

theorem unitOf_mem {rows : List HistoryRow} (h : HistoryValid rows) {r : HistoryRow} (hr : r ∈ rows) :
    unitOf r ∈ (manifestOf rows h).units ∧ ((unitOf r).position : Int) = r.seq := by
  have hb := seq_bounds (historyValid_iff.2 h) hr
  refine ⟨List.mem_map_of_mem ((sortBySeq_perm rows).mem_iff.2 hr), ?_⟩
  exact Int.toNat_of_nonneg (by omega)

theorem manifestOf_agrees {rows : List HistoryRow} (h : HistoryValid rows) :
    Agrees (manifestOf rows h).units rows := by
  refine ⟨?_, fun r hr _ => ?_, fun r hr ha => ?_⟩
  · rw [manifestOf, List.length_map, (sortBySeq_perm rows).length_eq]
  · obtain ⟨hu, hi⟩ := unitOf_mem h hr
    have hv := h.valid r hr
    exact ⟨unitOf r, hu, hi, rfl, languageOf_value hv, modeOf_value hv, rfl⟩
  · obtain ⟨hu, hi⟩ := unitOf_mem h hr
    have hv := h.valid r hr
    refine ⟨unitOf r, hu, hi, rfl, ?_, .inl (languageOf_value hv)⟩
    rw [unitOf, modeOf, (hv.active ha).1]
    rfl

/-- A snapshot that is not damaged is accepted under the manifest it records. -/
theorem manifestOf_accepted (hs : validateSnapshotShape snapshot = .ok ()) :
    ∃ capture plan, buildPlan capture snapshot = .ok plan ∧ requireNoRecoveryNeeded plan = .ok () := by
  obtain ⟨hlayout, hhist, hprog⟩ := validateSnapshotShape_rule.1 hs
  obtain ⟨plan, hplan⟩ := plan_of_rule ⟨hlayout, hhist, hprog, manifestOf_agrees hhist⟩
  refine ⟨manifestOf snapshot.history hhist, plan, hplan, ?_⟩
  have hplanned := plan_planned hplan
  have hsame : plan.activeFingerprintChanged = false := by
    rw [Bool.eq_false_iff]
    intro hc
    obtain ⟨r, u, ha, hu, hi, hne⟩ := hplanned.changed.1 hc
    have hr := ((hplanned.active r).1 ha).1
    obtain ⟨x, hx, rfl⟩ := List.mem_map.1 hu
    have hx := (sortBySeq_perm snapshot.history).mem_iff.1 hx
    have hw := historyValid_iff.2 hhist
    have hb := seq_bounds hw hx
    have hseq : x.seq = r.seq := (Int.toNat_of_nonneg (by omega)).symm.trans hi
    exact hne (congrArg HistoryRow.fingerprint (eq_of_seq hw hx hr hseq)).symm
  rw [requireNoRecoveryNeeded, hsame]

def noMigrations : Capture where
  units := []
  positions := rfl
  distinct := List.nodup_nil
  fingerprinted _ hu := absurd hu List.not_mem_nil

/-- Whether metadata is damaged does not depend on the manifest, and metadata that
is not damaged fits some manifest without recovery. Every refusal is one of the
two. -/
theorem damaged_or_refused (snapshot : Snapshot) :
    ((∃ capture, Damaged capture snapshot) ↔ ∀ capture, Damaged capture snapshot) ∧
    ((¬∃ capture, Damaged capture snapshot) → ∃ capture plan, buildPlan capture snapshot = .ok plan ∧
      requireNoRecoveryNeeded plan = .ok ()) ∧
    ∀ capture e, buildPlan capture snapshot = .error e →
      e.exitCode = .metadataDamaged ∨ e.exitCode = .validation ∧ ¬Damaged capture snapshot := by
  refine ⟨⟨?_, fun h => ⟨noMigrations, h _⟩⟩, fun hn => ?_, fun capture e he => ?_⟩
  · rintro ⟨capture, h⟩ capture'
    exact damaged_iff.2 (damaged_iff.1 h)
  · apply manifestOf_accepted
    by_contra hs
    exact hn ⟨noMigrations, damaged_iff.2 hs⟩
  · by_cases hd : Damaged capture snapshot
    · obtain ⟨e', he', hk⟩ := hd
      rw [he] at he'
      cases he'
      left
      rw [Migr8Error.exitCode, hk]
      rfl
    · have hs : validateSnapshotShape snapshot = .ok () := by
        by_contra hs
        exact hd (damaged_iff.2 hs)
      right
      refine ⟨?_, hd⟩
      rw [Migr8Error.exitCode, buildPlan_fails hs e he]
      rfl

end Manifest

end Migr8.Verdicts
