import Migr8.Shape
import Migr8.World

namespace Migr8.Forward

open Errors Model StateValidate Database World Shape

theorem not_supported_empty : isSupportedFingerprint "" = false := by decide

theorem checkFingerprint_ok_iff (row : HistoryRow) (label value : String) :
    checkFingerprint row label value = .ok () ↔ isSupportedFingerprint value = true := by
  unfold checkFingerprint
  split
  · next h => rw [h, not_supported_empty]; exact ⟨nofun, nofun⟩
  · split
    · next h => exact ⟨nofun, fun hs => by simp [hs] at h⟩
    · next h => exact ⟨fun _ => by simpa using h, fun _ => rfl⟩

theorem validateRow_ok_iff (r : HistoryRow) :
    validateRow r = .ok () ↔ (r.isActive || r.isSuccess) = true ∧ (r.language = "sql" ∨ r.language = "python") ∧
      (r.mode = "atomic" ∨ r.mode = "restartable") ∧ isSupportedFingerprint r.fingerprint = true ∧
      isSupportedFingerprint r.firstFingerprint = true ∧
      (if r.isActive then checkActiveRow r else checkSuccessRow r) = .ok () := by
  have hor {a b : Prop} [Decidable a] [Decidable b] : (decide a || decide b) = true ↔ a ∨ b := by simp
  unfold validateRow
  split
  · next h => exact ⟨nofun, fun hr => by rw [hr.1] at h; cases h⟩
  · next hs =>
      split
      · next h => exact ⟨nofun, fun hr => by rw [hor.2 hr.2.1] at h; cases h⟩
      · next hl =>
          split
          · next h => exact ⟨nofun, fun hr => by rw [hor.2 hr.2.2.1] at h; cases h⟩
          · next hm =>
              rw [Bool.not_eq_true, Bool.not_eq_false'] at hs hl hm
              simp only [seq_ok_iff, checkFingerprint_ok_iff, hs, hor.1 hl, hor.1 hm, true_and]

/-- A row just inserted by the engine, for an atomic or a restartable unit. -/
theorem validateRow_insert {i : HistoryInsert} {now : Timestamp} (hf : isSupportedFingerprint i.fingerprint = true)
    (h : i.status = .success ∧ i.mode = .atomic ∧ i.attempt = none ∨
      i.status = .active ∧ i.mode = .restartable ∧ i.attempt = some 1) : validateRow (i.row now) = .ok () := by
  rw [validateRow_ok_iff]
  have hl : (i.row now).language = "sql" ∨ (i.row now).language = "python" := by
    cases hi : i.language
    · exact .inl (congrArg Language.value hi)
    · exact .inr (congrArg Language.value hi)
  rcases h with ⟨hs, hm, ha⟩ | ⟨hs, hm, ha⟩
  · have hst : (i.row now).status = "SUCCESS" := congrArg Status.value hs
    have hmo : (i.row now).mode = "atomic" := congrArg Mode.value hm
    have hfin : (i.row now).finishedAt = some now := if_pos hs
    have hat : (i.row now).attempt = none := ha
    refine ⟨?_, hl, .inl hmo, hf, hf, ?_⟩
    · simp [HistoryRow.isSuccess, hst, Status.value]
    · simp [HistoryRow.isActive, hst, Status.value, checkSuccessRow, hfin, hat, hmo, Mode.value]
  · have hst : (i.row now).status = "ACTIVE" := congrArg Status.value hs
    have hmo : (i.row now).mode = "restartable" := congrArg Mode.value hm
    have hfin : (i.row now).finishedAt = none := if_neg (by rw [hs]; decide)
    have hat : (i.row now).attempt = some 1 := ha
    have hstart : (i.row now).startedAt = some now := rfl
    refine ⟨?_, hl, .inr hmo, hf, hf, ?_⟩
    · simp [HistoryRow.isActive, hst, Status.value]
    · simp [HistoryRow.isActive, hst, Status.value, checkActiveRow, hfin, hat, hmo, Mode.value, attemptCounted, hstart]

structure ActiveFields (r : HistoryRow) : Prop where
  mode : r.mode = Mode.restartable.value
  attempt : attemptCounted r.attempt = true
  finished : r.finishedAt = none
  started : r.startedAt.isSome = true

theorem checkActiveRow_ok_iff (r : HistoryRow) : checkActiveRow r = .ok () ↔ ActiveFields r := by
  unfold checkActiveRow
  split
  · next h => exact ⟨nofun, fun hr => absurd hr.mode h⟩
  · next hm =>
      split
      · next h => exact ⟨nofun, fun hr => by simp [hr.attempt] at h⟩
      · next ha =>
          split
          · next h => exact ⟨nofun, fun hr => by simp [hr.finished] at h⟩
          · next hf =>
              split
              · next h => exact ⟨nofun, fun hr => absurd hr.started (by simpa using h)⟩
              · next hs => exact ⟨fun _ => ⟨by simpa using hm, by simpa using ha, by simpa using hf,
                  by simpa [Option.isSome_iff_ne_none] using hs⟩, fun _ => rfl⟩

theorem activeFields {r : HistoryRow} (h : validateRow r = .ok ()) (ha : r.isActive = true) : ActiveFields r := by
  have hr := ((validateRow_ok_iff r).1 h).2.2.2.2.2
  rw [if_pos ha] at hr
  exact (checkActiveRow_ok_iff r).1 hr

theorem attemptCounted_succ {a : Option Int} (h : attemptCounted a = true) :
    attemptCounted (a.map (· + 1)) = true := by
  cases a with
  | none => exact h
  | some n =>
      simp only [attemptCounted, Option.map_some, decide_eq_true_eq] at h ⊢
      omega

theorem validateRow_admitAttempt {r : HistoryRow} {fingerprint : String} {language : Language}
    {runner : RunnerInfo} {now : Timestamp} (h : validateRow r = .ok ()) (ha : r.isActive = true)
    (hf : isSupportedFingerprint fingerprint = true) :
    validateRow (admitAttempt fingerprint language runner now r) = .ok () := by
  have hact := activeFields h ha
  obtain ⟨hs, -, hm, -, hff, -⟩ := (validateRow_ok_iff r).1 h
  refine (validateRow_ok_iff _).2 ⟨hs, ?_, hm, hf, hff, ?_⟩
  · cases language
    · exact .inl rfl
    · exact .inr rfl
  · have ha' : (admitAttempt fingerprint language runner now r).isActive = true := ha
    rw [if_pos ha', checkActiveRow_ok_iff]
    exact ⟨hact.mode, attemptCounted_succ hact.attempt, hact.finished, hact.started⟩

theorem validateRow_completeRow {r : HistoryRow} {toolVersion : String} {now : Timestamp}
    (h : validateRow r = .ok ()) (ha : r.isActive = true) :
    validateRow (completeRow toolVersion now r) = .ok () := by
  have hact := activeFields h ha
  obtain ⟨-, hl, hm, hf, hff, -⟩ := (validateRow_ok_iff r).1 h
  refine (validateRow_ok_iff _).2 ⟨rfl, hl, hm, hf, hff, ?_⟩
  have hn : (completeRow toolVersion now r).isActive = false := rfl
  have hmode : (completeRow toolVersion now r).mode = "restartable" := hact.mode
  have hatt : attemptCounted (completeRow toolVersion now r).attempt = true := hact.attempt
  have hfin : (completeRow toolVersion now r).finishedAt = some now := rfl
  simp [hn, checkSuccessRow, hmode, hatt, hfin, Mode.value]

section Transitions

variable {rows : List HistoryRow} {id : String} {f : HistoryRow → HistoryRow}

theorem WellFormed.append {row : HistoryRow} (h : WellFormed rows) (hv : validateRow row = .ok ())
    (hs : row.seq = rows.length + 1) (hi : ∀ r ∈ rows, r.migrationId ≠ row.migrationId)
    (hn : ∀ r ∈ rows, r.isActive = false) : WellFormed (rows ++ [row]) := by
  have hmem {r : HistoryRow} : r ∈ rows ++ [row] ↔ r ∈ rows ∨ r = row := by simp
  refine ⟨?_, ?_, ?_, ?_⟩
  · rw [List.map_append, List.nodup_append]
    refine ⟨h.ids, List.nodup_singleton _, ?_⟩
    rintro _ ha _ hb rfl
    obtain ⟨r, hr, he⟩ := List.mem_map.1 ha
    exact hi r hr (he.trans (by simpa using hb))
  · rw [List.map_append, List.length_append, List.length_singleton, positions_succ, List.map_singleton, hs]
    exact h.seqs.append_right _
  · intro r hr
    rcases hmem.1 hr with hr | rfl
    · exact h.valid r hr
    · exact hv
  · intro r hr ha
    rcases hmem.1 hr with hr | rfl
    · rw [hn r hr] at ha
      cases ha
    · simpa using hs

def updateRows (id : String) (f : HistoryRow → HistoryRow) (rows : List HistoryRow) : List HistoryRow :=
  rows.map fun r => if isActiveRow id r then f r else r

theorem WellFormed.updateRows (h : WellFormed rows) (hseq : ∀ r, (f r).seq = r.seq)
    (hid : ∀ r, (f r).migrationId = r.migrationId)
    (hv : ∀ r, validateRow r = .ok () → r.isActive = true → validateRow (f r) = .ok ()) :
    WellFormed (updateRows id f rows) := by
  have hlen : (Forward.updateRows id f rows).length = rows.length := List.length_map _
  have hmap {β : Type} (g : HistoryRow → β) (hg : ∀ r, g (f r) = g r) :
      (Forward.updateRows id f rows).map g = rows.map g := by
    simp only [Forward.updateRows, List.map_map]
    refine List.map_congr_left fun r _ => ?_
    simp only [Function.comp_apply]
    split
    · exact hg r
    · rfl
  refine ⟨?_, ?_, ?_, ?_⟩
  · rw [hmap _ hid]
    exact h.ids
  · rw [hmap _ hseq, hlen]
    exact h.seqs
  · intro r' hr'
    obtain ⟨r, hr, rfl⟩ := List.mem_map.1 hr'
    split
    · next ha => exact hv r (h.valid r hr) (Bool.and_eq_true_iff.1 ha).2
    · exact h.valid r hr
  · intro r' hr' ha'
    obtain ⟨r, hr, rfl⟩ := List.mem_map.1 hr'
    rw [hlen]
    by_cases ha : isActiveRow id r = true
    · rw [if_pos ha, hseq, h.active r hr (Bool.and_eq_true_iff.1 ha).2]
    · rw [if_neg ha] at ha' ⊢
      exact h.active r hr ha'

theorem ProgressOk.append {progress : List ProgressRow} {row : HistoryRow} (h : ProgressOk rows progress) :
    ProgressOk (rows ++ [row]) progress := by
  refine ⟨h.keys, h.values, fun p hp => ?_⟩
  obtain ⟨r, hr, ho⟩ := h.owners p hp
  exact ⟨r, List.mem_append_left _ hr, ho⟩

theorem ProgressOk.readmit {progress : List ProgressRow} (h : ProgressOk rows progress)
    (hid : ∀ r, (f r).migrationId = r.migrationId) (hact : ∀ r, r.isActive = true → (f r).isActive = true) :
    ProgressOk (updateRows id f rows) progress := by
  refine ⟨h.keys, h.values, fun p hp => ?_⟩
  obtain ⟨r, hr, hi, ha⟩ := h.owners p hp
  refine ⟨_, List.mem_map_of_mem hr, ?_⟩
  split
  · exact ⟨(hid r).trans hi, hact r ha⟩
  · exact ⟨hi, ha⟩

/-- Completion deletes the progress of the row it completes. -/
theorem ProgressOk.complete {progress : List ProgressRow} (h : ProgressOk rows progress) :
    ProgressOk (updateRows id f rows) (progress.filter fun p => p.migrationId != id) := by
  have hsub : (progress.filter fun p => p.migrationId != id).Sublist progress := List.filter_sublist
  refine ⟨h.keys.sublist (hsub.map _), fun p hp => h.values p (hsub.subset hp), fun p hp => ?_⟩
  obtain ⟨r, hr, hi, ha⟩ := h.owners p (hsub.subset hp)
  refine ⟨_, List.mem_map_of_mem hr, ?_⟩
  have hne : p.migrationId ≠ id := by simpa using (List.mem_filter.1 hp).2
  have hn : isActiveRow id r = false := by simp [isActiveRow, hi, hne]
  rw [hn]
  exact ⟨hi, ha⟩

theorem ProgressOk.upsert {progress : List ProgressRow} {p : ProgressRow} (h : ProgressOk rows progress)
    (hv : p.progValue ≠ "") (ho : ∃ r ∈ rows, r.migrationId = p.migrationId ∧ r.isActive = true) :
    ProgressOk rows (upsert progress p) := by
  have hkey {q : ProgressRow} : sameKey p q = true ↔ progressKey q = progressKey p := by
    simp only [sameKey, progressKey, Bool.and_eq_true, beq_iff_eq, Prod.mk.injEq]
    exact ⟨fun h => ⟨h.1.symm, h.2.symm⟩, fun h => ⟨h.1.symm, h.2.symm⟩⟩
  unfold Database.upsert
  split
  · have hmap : (progress.map fun q => if sameKey p q then p else q).map progressKey = progress.map progressKey := by
      rw [List.map_map]
      refine List.map_congr_left fun q _ => ?_
      simp only [Function.comp_apply]
      split
      · next hs => exact (hkey.1 hs).symm
      · rfl
    refine ⟨by rw [hmap]; exact h.keys, ?_, ?_⟩
    all_goals
      intro q hq
      obtain ⟨x, hx, rfl⟩ := List.mem_map.1 hq
      split
    · exact hv
    · exact h.values x hx
    · exact ho
    · exact h.owners x hx
  · next hn =>
      have hfresh : progressKey p ∉ progress.map progressKey := by
        intro hm
        obtain ⟨q, hq, he⟩ := List.mem_map.1 hm
        exact hn (List.any_eq_true.2 ⟨q, hq, hkey.2 he⟩)
      have hmem {q : ProgressRow} : q ∈ progress ++ [p] ↔ q ∈ progress ∨ q = p := by simp
      refine ⟨?_, fun q hq => ?_, fun q hq => ?_⟩
      · rw [List.map_append, List.nodup_append]
        refine ⟨h.keys, List.nodup_singleton _, ?_⟩
        rintro _ ha _ hb rfl
        rw [List.map_singleton, List.mem_singleton] at hb
        exact hfresh (hb ▸ ha)
      · rcases hmem.1 hq with hq | rfl
        · exact h.values q hq
        · exact hv
      · rcases hmem.1 hq with hq | rfl
        · exact h.owners q hq
        · exact ho

end Transitions

/-- What one request may do to the durable history. Every change is made by a
commit that the engine submits for it. -/
inductive Move (recover : Option String) (op : Op) (rows : List HistoryRow) : List HistoryRow → Prop
  | stay : Move recover op rows rows
  | succeed (i : HistoryInsert) (now : Timestamp) (hop : op = .commit .atomicCompletion) (hs : i.status = .success) :
      Move recover op rows (rows ++ [i.row now])
  | begun (i : HistoryInsert) (now : Timestamp) (hop : op = .commit .restartableAdmission)
      (hs : i.status = .active) (ha : i.attempt = some 1) (hn : ∀ r ∈ rows, r.isActive = false) :
      Move recover op rows (rows ++ [i.row now])
  | readmitted (id fingerprint : String) (language : Language) (runner : RunnerInfo) (now : Timestamp)
      (hop : op = .commit .restartableAdmission)
      (hsrc : ∀ r ∈ rows, r.isActive = true → r.migrationId = id ∧
        (r.fingerprint = fingerprint ∧ r.language = language.value ∨ recover = some id)) :
      Move recover op rows (updateRows id (admitAttempt fingerprint language runner now) rows)
  | completed (id toolVersion : String) (now : Timestamp) (hop : op = .commit .restartableCompletion) :
      Move recover op rows (updateRows id (completeRow toolVersion now) rows)

/-- How a row that is durable before a request stands after it. -/
structure RowStep (recover : Option String) (op : Op) (r r' : HistoryRow) : Prop where
  identity : r'.seq = r.seq ∧ r'.migrationId = r.migrationId ∧ r'.mode = r.mode ∧
    r'.firstFingerprint = r.firstFingerprint ∧ r'.startedAt = r.startedAt
  success : r.isSuccess = true → r' = r
  attempt : r'.attempt = r.attempt ∨
    op = .commit .restartableAdmission ∧ r.isActive = true ∧ r'.attempt = r.attempt.map (· + 1)
  source : r'.fingerprint ≠ r.fingerprint ∨ r'.language ≠ r.language →
    op = .commit .restartableAdmission ∧ r.isActive = true ∧ r'.attempt = r.attempt.map (· + 1) ∧
      recover = some r.migrationId

theorem RowStep.refl {recover : Option String} {op : Op} (r : HistoryRow) : RowStep recover op r r :=
  ⟨⟨rfl, rfl, rfl, rfl, rfl⟩, fun _ => rfl, .inl rfl, fun h => h.elim (absurd rfl) (absurd rfl)⟩

/-- An admission that becomes durable is one attempt more: a first row, or the
ACTIVE row counted up. -/
def Admission (op : Op) (rows rows' : List HistoryRow) : Prop :=
  op = .commit .restartableAdmission → rows' ≠ rows →
    (∃ row, rows' = rows ++ [row] ∧ row.isActive = true ∧ row.attempt = some 1 ∧ ∀ r ∈ rows, r.isActive = false) ∨
      rows'.length = rows.length ∧
        ∀ (i : Nat) r, rows[i]? = some r → r.isActive = true → ∃ r', rows'[i]? = some r' ∧
        r'.attempt = r.attempt.map (· + 1)

structure Steps (recover : Option String) (op : Op) (rows rows' : List HistoryRow) : Prop where
  kept : ∀ (i : Nat) r, rows[i]? = some r → ∃ r', rows'[i]? = some r' ∧ RowStep recover op r r'
  admission : Admission op rows rows'

theorem not_success_of_active {id : String} {r : HistoryRow} (h : isActiveRow id r = true) : r.isSuccess = false := by
  have ha : r.status = Status.active.value := by
    simpa [HistoryRow.isActive] using (Bool.and_eq_true_iff.1 h).2
  rw [HistoryRow.isSuccess, ha]
  rfl

theorem getElem?_updateRows {id : String} {f : HistoryRow → HistoryRow} {rows : List HistoryRow} {i : Nat}
    {r : HistoryRow} (h : rows[i]? = some r) :
    (updateRows id f rows)[i]? = some (if isActiveRow id r then f r else r) := by
  rw [updateRows, List.getElem?_map, h]
  rfl

theorem Move.steps {recover : Option String} {op : Op} {rows rows' : List HistoryRow}
    (h : Move recover op rows rows') : Steps recover op rows rows' := by
  have happ {row : HistoryRow} (i : Nat) (r : HistoryRow) (hr : rows[i]? = some r) :
      ∃ r', (rows ++ [row])[i]? = some r' ∧ RowStep recover op r r' := by
    refine ⟨r, ?_, RowStep.refl r⟩
    rw [List.getElem?_append_left (List.getElem?_eq_some_iff.1 hr).1]
    exact hr
  cases h with
  | stay => exact ⟨fun i r hr => ⟨r, hr, RowStep.refl r⟩, fun _ hn => absurd rfl hn⟩
  | succeed i now hop hs => exact ⟨happ, fun h => by rw [hop] at h; cases h⟩
  | begun i now hop hs ha hn =>
      refine ⟨happ, fun _ _ => .inl ⟨_, rfl, ?_, ha, hn⟩⟩
      have hst : (i.row now).status = Status.active.value := congrArg Status.value hs
      simp [HistoryRow.isActive, hst]
  | readmitted id fingerprint language runner now hop hsrc =>
      refine ⟨fun i r hr => ⟨_, getElem?_updateRows hr, ?_⟩, fun _ _ => .inr ⟨List.length_map _, ?_⟩⟩
      · split
        · next ha =>
            have hact := (Bool.and_eq_true_iff.1 ha).2
            obtain ⟨hid, hsame⟩ := hsrc r (List.mem_of_getElem? hr) hact
            refine ⟨⟨rfl, rfl, rfl, rfl, rfl⟩, ?_, .inr ⟨hop, hact, rfl⟩, fun hd => ⟨hop, hact, rfl, ?_⟩⟩
            · rw [not_success_of_active ha]
              nofun
            · rcases hsame with ⟨hf, hl⟩ | hrec
              · exact hd.elim (fun h => absurd hf.symm h) fun h => absurd hl.symm h
              · rw [hrec, hid]
        · exact RowStep.refl r
      · intro i r hr hact
        obtain ⟨hid, -⟩ := hsrc r (List.mem_of_getElem? hr) hact
        refine ⟨_, getElem?_updateRows hr, ?_⟩
        rw [if_pos (by simp [isActiveRow, hid, hact])]
        rfl
  | completed id toolVersion now hop =>
      refine ⟨fun i r hr => ⟨_, getElem?_updateRows hr, ?_⟩, fun h => by rw [hop] at h; cases h⟩
      split
      · next ha =>
          refine ⟨⟨rfl, rfl, rfl, rfl, rfl⟩, ?_, .inl rfl, fun hd => ?_⟩
          · rw [not_success_of_active ha]
            nofun
          · exact hd.elim (fun h => absurd rfl h) fun h => absurd rfl h
      · exact RowStep.refl r

end Migr8.Forward
