import Migr8.Forward

namespace Migr8.Plans

open Errors Model StateValidate Database World Shape Forward

/-- How far a history has got through the units of a capture: the units `done`
have succeeded, and `rest` begins with the unit whose row is ACTIVE, if any. -/
structure Ready (units : List CapturedUnit) (recover : Option String) (active : Option HistoryRow)
    (done rest : List CapturedUnit) (rows : List HistoryRow) : Prop where
  wellFormed : WellFormed rows
  split : units = done ++ rest
  count : (rows.filter (·.isSuccess)).length = done.length
  succeeded : ∀ u ∈ done, ∃ r ∈ rows, r.migrationId = u.id ∧ r.isSuccess = true
  owned : ∀ r ∈ rows, r.isSuccess = true → ∃ u ∈ done, u.id = r.migrationId
  next : ((∀ r ∈ rows, r.isActive = false) ∧ ∀ row, active = some row → ∃ u ∈ done, u.id = row.migrationId) ∨
    ∃ row u rest', active = some row ∧ rest = u :: rest' ∧ row ∈ rows ∧ row.isActive = true ∧
      row.migrationId = u.id ∧ u.mode = .restartable ∧
      (row.fingerprint = u.fingerprint ∧ row.language = u.language.value ∨ recover = some u.id)

section Rows

variable {rows : List HistoryRow} (h : WellFormed rows)

include h

theorem seq_bounds {r : HistoryRow} (hr : r ∈ rows) : 1 ≤ r.seq ∧ r.seq ≤ rows.length :=
  mem_positions.1 (h.seqs.mem_iff.1 (List.mem_map_of_mem hr))

theorem exists_seq {i : Int} (h1 : 1 ≤ i) (h2 : i ≤ rows.length) : ∃ r ∈ rows, r.seq = i := by
  have hm := h.seqs.mem_iff.2 (mem_positions.2 ⟨h1, h2⟩)
  exact List.mem_map.1 hm

theorem eq_of_seq {a b : HistoryRow} (ha : a ∈ rows) (hb : b ∈ rows) (he : a.seq = b.seq) : a = b :=
  List.inj_on_of_nodup_map (h.seqs.nodup_iff.2 (positions_nodup _)) ha hb he

theorem active_unique {a b : HistoryRow} (ha : a ∈ rows) (hb : b ∈ rows) (ha' : a.isActive = true)
    (hb' : b.isActive = true) : a = b :=
  eq_of_seq h ha hb ((h.active a ha ha').trans (h.active b hb hb').symm)

theorem successes_length_of_active {a : HistoryRow} (ha : a ∈ rows) (hact : a.isActive = true) :
    (rows.filter (·.isSuccess)).length + 1 = rows.length := by
  have hlen := filter_lengths h.valid
  have hone : (rows.filter (·.isActive)).length = 1 := by
    have hm : a ∈ rows.filter (·.isActive) := List.mem_filter.2 ⟨ha, hact⟩
    have hnd : (rows.filter (·.isActive)).Nodup := (List.Nodup.of_map _ h.ids).filter _
    rw [List.length_eq_one_iff]
    refine ⟨a, ?_⟩
    match hf : rows.filter (·.isActive) with
    | [] => rw [hf] at hm; cases hm
    | [b] =>
        rw [hf] at hm
        rw [List.mem_singleton.1 hm, hf]
    | b :: c :: rest =>
        have hb := List.mem_filter.1 (hf ▸ List.mem_cons_self : b ∈ rows.filter (·.isActive))
        have hc := List.mem_filter.1 (hf ▸ by simp : c ∈ rows.filter (·.isActive))
        rw [hf, active_unique h hb.1 hc.1 hb.2 hc.2] at hnd
        simp at hnd
  omega

theorem successes_length_of_no_active (hn : ∀ r ∈ rows, r.isActive = false) :
    (rows.filter (·.isSuccess)).length = rows.length := by
  have hlen := filter_lengths h.valid
  have hzero : rows.filter (·.isActive) = [] := List.filter_eq_nil_iff.2 fun r hr => by simp [hn r hr]
  rw [hzero] at hlen
  exact hlen

theorem isSuccess_iff_seq {r : HistoryRow} (hr : r ∈ rows) :
    r.isSuccess = true ↔ r.seq ≤ (rows.filter (·.isSuccess)).length := by
  have hb := seq_bounds h hr
  rw [isSuccess_eq_not_isActive (h.valid r hr), Bool.not_eq_true']
  by_cases hn : ∀ x ∈ rows, x.isActive = false
  · rw [successes_length_of_no_active h hn]
    exact ⟨fun _ => hb.2, fun _ => hn r hr⟩
  · push Not at hn
    obtain ⟨a, ha, hact⟩ := hn
    have hact : a.isActive = true := by simpa using hact
    have hk := successes_length_of_active h ha hact
    have hseq := h.active a ha hact
    constructor
    · intro hra
      have hne : r.seq ≠ a.seq := fun he => by rw [eq_of_seq h hr ha he, hact] at hra; cases hra
      omega
    · intro hle
      by_contra hra
      have := h.active r hr (by simpa using hra)
      omega

end Rows

theorem checkSuccesses_ok {units : List CapturedUnit} {rows : List HistoryRow}
    (h : checkSuccesses units rows = .ok ()) : ∀ r ∈ rows, checkSuccess units r = .ok () := by
  induction rows with
  | nil => exact fun r hr => absurd hr List.not_mem_nil
  | cons row rows ih =>
      simp only [checkSuccesses, seq_ok_iff] at h
      exact List.forall_mem_cons.2 ⟨h.1, ih h.2⟩

theorem checkSuccess_id {units : List CapturedUnit} {row : HistoryRow} {u : CapturedUnit}
    (h : checkSuccess units row = .ok ()) (hu : units[(row.seq - 1).toNat]? = some u) : u.id = row.migrationId := by
  unfold checkSuccess at h
  rw [hu] at h
  dsimp only at h
  split at h
  · cases h
  · next hne => simpa using hne

theorem checkActive_ok {units : List CapturedUnit} {row : HistoryRow} {u : CapturedUnit} {changed : Bool}
    (h : checkActive units row = .ok changed) (hu : units[(row.seq - 1).toNat]? = some u) :
    u.id = row.migrationId ∧ u.mode = .restartable ∧ (changed = true ↔ row.fingerprint ≠ u.fingerprint) ∧
      (row.fingerprint = u.fingerprint → row.language = u.language.value) := by
  unfold checkActive at h
  rw [hu] at h
  dsimp only at h
  split at h
  · cases h
  · next hid =>
      split at h
      · cases h
      · next hlang =>
          split at h
          · cases h
          · next hmode =>
              refine ⟨by simpa using hid, by simpa using hmode, ?_, fun hf => ?_⟩
              · rw [← Except.ok.inj h]
                simp
              · by_contra hl
                exact hlang ⟨hl, hf⟩

def Admitted (recover : Option String) (plan : Plan) : Prop :=
  (match recover with
    | none => requireNoRecoveryNeeded plan
    | some id => checkRecoveryAdmission plan id) = .ok ()

theorem Admitted.source {recover : Option String} {plan : Plan} {row : HistoryRow} (h : Admitted recover plan)
    (ha : plan.active = some row) : plan.activeFingerprintChanged = false ∨ recover = some row.migrationId := by
  unfold Admitted at h
  cases recover with
  | none =>
      left
      cases hc : plan.activeFingerprintChanged with
      | false => rfl
      | true => simp [requireNoRecoveryNeeded, hc, ha] at h
  | some id =>
      right
      simp only [checkRecoveryAdmission, ha] at h
      split at h
      · cases h
      · next hid => rw [show row.migrationId = id by simpa using hid]

section Build

variable {capture : Capture} {snapshot : Snapshot} {plan : Plan}

/-- The checks a plan has passed, one by one. -/
theorem buildPlan_ok (h : buildPlan capture snapshot = .ok plan) :
    WellFormed snapshot.history ∧ snapshot.history.length ≤ capture.units.length ∧
      (∀ r ∈ snapshot.history, r.isSuccess = true → checkSuccess capture.units r = .ok ()) ∧
      plan.pending = capture.units.drop (snapshot.history.filter (·.isSuccess)).length ∧
      plan.active = (sortBySeq snapshot.history).find? (·.isActive) ∧
      (∀ row, plan.active = some row → checkActive capture.units row = .ok plan.activeFingerprintChanged) := by
  have hp := sortBySeq_perm snapshot.history
  unfold buildPlan at h
  rw [bind_ok_iff] at h
  obtain ⟨⟨⟩, hshape, h⟩ := h
  have hw := ((validateSnapshotShape_ok_iff snapshot).1 hshape).2.1
  dsimp only at h
  split at h
  · cases h
  · next hlen =>
      rw [bind_ok_iff] at h
      obtain ⟨⟨⟩, hsucc, h⟩ := h
      have hlen' : snapshot.history.length ≤ capture.units.length := by
        rw [← hp.length_eq]
        exact List.getElem?_eq_none_iff.1 hlen
      have hsucc' : ∀ r ∈ snapshot.history, r.isSuccess = true → checkSuccess capture.units r = .ok () :=
        fun r hr hs => checkSuccesses_ok hsucc r (List.mem_filter.2 ⟨hp.mem_iff.2 hr, hs⟩)
      have hcount : ((sortBySeq snapshot.history).filter (·.isSuccess)).length =
          (snapshot.history.filter (·.isSuccess)).length := (hp.filter _).length_eq
      cases hfind : (sortBySeq snapshot.history).find? (·.isActive) with
      | none =>
          rw [hfind] at h
          cases h
          exact ⟨hw, hlen', hsucc', by rw [← hcount], rfl, fun row hrow => by cases hrow⟩
      | some row =>
          rw [hfind] at h
          dsimp only at h
          rw [bind_ok_iff] at h
          obtain ⟨changed, hact, h⟩ := h
          cases h
          refine ⟨hw, hlen', hsucc', by rw [← hcount], rfl, ?_⟩
          rintro _ ⟨⟩
          exact hact

theorem unit_at {rows : List HistoryRow} {units : List CapturedUnit} (hw : WellFormed rows)
    (hlen : rows.length ≤ units.length) {r : HistoryRow} (hr : r ∈ rows) :
    ∃ u, units[(r.seq - 1).toNat]? = some u := by
  have hb := seq_bounds hw hr
  have hi : (r.seq - 1).toNat < units.length := by omega
  exact ⟨units[(r.seq - 1).toNat], List.getElem?_eq_getElem hi⟩

/-- A plan that has been built and admitted fits the history it was built from. -/
theorem buildPlan_ready {recover : Option String} (h : buildPlan capture snapshot = .ok plan)
    (ha : Admitted recover plan) :
    Ready capture.units recover plan.active
      (capture.units.take (snapshot.history.filter (·.isSuccess)).length) plan.pending snapshot.history := by
  obtain ⟨hw, hlen, hsucc, hpend, hact, hcheck⟩ := buildPlan_ok h
  have hp := sortBySeq_perm snapshot.history
  have hsuccess {r : HistoryRow} (hr : r ∈ snapshot.history) (hs : r.isSuccess = true) {u : CapturedUnit}
      (hu : capture.units[(r.seq - 1).toNat]? = some u) : u.id = r.migrationId := checkSuccess_id (hsucc r hr hs) hu
  have hfind {row : HistoryRow} (hrow : plan.active = some row) : row ∈ snapshot.history ∧ row.isActive = true := by
    rw [hact] at hrow
    exact ⟨hp.mem_iff.1 (List.mem_of_find?_eq_some hrow), List.find?_some hrow⟩
  have hnone (hrow : plan.active = none) : ∀ r ∈ snapshot.history, r.isActive = false := by
    rw [hact] at hrow
    intro r hr
    simpa using List.find?_eq_none.1 hrow r (hp.mem_iff.2 hr)
  have hk : (snapshot.history.filter (·.isSuccess)).length ≤ snapshot.history.length := List.length_filter_le ..
  refine ⟨hw, ?_, ?_, ?_, ?_, ?_⟩
  · rw [hpend, List.take_append_drop]
  · rw [List.length_take]
    omega
  · intro u hu
    obtain ⟨j, hj, rfl⟩ := List.mem_take_iff_getElem.1 hu
    obtain ⟨r, hr, hseq⟩ := exists_seq hw (i := j + 1) (by omega) (by omega)
    have hs : r.isSuccess = true := (isSuccess_iff_seq hw hr).2 (by omega)
    have hj' : j < capture.units.length := by omega
    refine ⟨r, hr, (hsuccess hr hs ?_).symm, hs⟩
    rw [show (r.seq - 1).toNat = j by omega, List.getElem?_eq_getElem hj']
  · intro r hr hs
    obtain ⟨u, hu⟩ := unit_at hw hlen hr
    have hle := (isSuccess_iff_seq hw hr).1 hs
    have hb := seq_bounds hw hr
    obtain ⟨hi, he⟩ := List.getElem?_eq_some_iff.1 hu
    exact ⟨u, List.mem_take_iff_getElem.2 ⟨_, by omega, he⟩, hsuccess hr hs hu⟩
  · cases hrow : plan.active with
    | none => exact .inl ⟨hnone hrow, fun row h => by cases h⟩
    | some row =>
        obtain ⟨hr, hra⟩ := hfind hrow
        obtain ⟨u, hu⟩ := unit_at hw hlen hr
        obtain ⟨hid, hmode, hchanged, hlang⟩ := checkActive_ok (hcheck row hrow) hu
        have hk := successes_length_of_active hw hr hra
        have hseq := hw.active row hr hra
        obtain ⟨hi, he⟩ := List.getElem?_eq_some_iff.1 hu
        have hidx : (row.seq - 1).toNat = (snapshot.history.filter (·.isSuccess)).length := by omega
        refine .inr ⟨row, u, capture.units.drop ((row.seq - 1).toNat + 1), rfl, ?_, hr, hra, hid.symm, hmode, ?_⟩
        · rw [hpend, ← hidx, List.drop_eq_getElem_cons hi, he]
        · rcases Admitted.source ha hrow with hc | hc
          · have hf : row.fingerprint = u.fingerprint := by
              by_contra hne
              rw [hchanged.2 hne] at hc
              cases hc
            exact .inl ⟨hf, hlang hf⟩
          · exact .inr (hid ▸ hc)

end Build

theorem Ready.perm {units done rest : List CapturedUnit} {recover : Option String} {active : Option HistoryRow}
    {rows rows' : List HistoryRow} (h : Ready units recover active done rest rows) (hp : rows.Perm rows') :
    Ready units recover active done rest rows' := by
  have hm {r : HistoryRow} : r ∈ rows ↔ r ∈ rows' := hp.mem_iff
  refine ⟨h.wellFormed.perm hp, h.split, ?_, ?_, ?_, ?_⟩
  · rw [← h.count]
    exact (hp.filter _).length_eq.symm
  · intro u hu
    obtain ⟨r, hr, hs⟩ := h.succeeded u hu
    exact ⟨r, hm.1 hr, hs⟩
  · exact fun r hr => h.owned r (hm.2 hr)
  · rcases h.next with ⟨hn, ha⟩ | ⟨row, u, rest', ha, hrest, hr, hrow⟩
    · exact .inl ⟨fun r hr => hn r (hm.2 hr), ha⟩
    · exact .inr ⟨row, u, rest', ha, hrest, hm.1 hr, hrow⟩

section Units

variable {units done rest : List CapturedUnit} {recover : Option String} {active : Option HistoryRow}
  {rows rows' : List HistoryRow} {u : CapturedUnit} (h : Ready units recover active done (u :: rest) rows)
  (hd : (units.map (·.id)).Nodup)

include h hd

theorem Ready.not_done {v : CapturedUnit} (hv : v ∈ done) : v.id ≠ u.id := by
  rw [h.split, List.map_append, List.nodup_append] at hd
  exact hd.2.2 _ (List.mem_map_of_mem hv) _ (List.mem_map_of_mem List.mem_cons_self)

theorem Ready.isActive {r : HistoryRow} (hr : r ∈ rows) (hi : r.migrationId = u.id) : r.isActive = true := by
  have hs := isSuccess_eq_not_isActive (h.wellFormed.valid r hr)
  by_contra hn
  obtain ⟨v, hv, hid⟩ := h.owned r hr (by rw [hs]; simpa using hn)
  exact h.not_done hd hv (hid.trans hi)

omit hd in
theorem Ready.length_of_no_active (hn : ∀ r ∈ rows, r.isActive = false) : rows.length = done.length := by
  rw [← h.count, successes_length_of_no_active h.wellFormed hn]

omit hd in
theorem Ready.no_active_of_atomic (hm : u.mode = .atomic) : ∀ r ∈ rows, r.isActive = false := by
  rcases h.next with ⟨hn, -⟩ | ⟨row, v, rest', -, hrest, -, -, -, hv, -⟩
  · exact hn
  · cases hrest
    rw [hm] at hv
    cases hv

omit hd in
theorem Ready.no_active_of_filter (hf : active.filter (fun row => row.migrationId == u.id) = none) :
    ∀ r ∈ rows, r.isActive = false := by
  rcases h.next with ⟨hn, -⟩ | ⟨row, v, rest', ha, hrest, -, -, hid, -, -⟩
  · exact hn
  · cases hrest
    rw [ha] at hf
    simp [hid] at hf

theorem Ready.active_of_filter {row : HistoryRow}
    (hf : active.filter (fun row => row.migrationId == u.id) = some row) :
    row ∈ rows ∧ row.isActive = true ∧ row.migrationId = u.id ∧
      (row.fingerprint = u.fingerprint ∧ row.language = u.language.value ∨ recover = some u.id) := by
  obtain ⟨ha, hid⟩ := Option.filter_eq_some_iff.1 hf
  have hid : row.migrationId = u.id := by simpa using hid
  rcases h.next with ⟨-, hdone⟩ | ⟨row', v, rest', ha', hrest, hr, hact, -, -, hsrc⟩
  · obtain ⟨v, hv, he⟩ := hdone row ha
    exact absurd (he.trans hid) (h.not_done hd hv)
  · cases hrest
    cases ha.symm.trans ha'
    exact ⟨hr, hact, hid, hsrc⟩

omit hd in
/-- The next unit has succeeded, and nothing else has changed. -/
theorem Ready.advance (hw : WellFormed rows') (hlen : rows'.length = done.length + 1)
    (hn : ∀ r ∈ rows', r.isActive = false) (hnew : ∃ r ∈ rows', r.migrationId = u.id ∧ r.isSuccess = true)
    (hkept : ∀ r ∈ rows, r.isSuccess = true → r ∈ rows')
    (hown : ∀ r ∈ rows', r.isSuccess = true → r ∈ rows ∨ r.migrationId = u.id) :
    Ready units recover active (done ++ [u]) rest rows' := by
  refine ⟨hw, by simpa using h.split, ?_, fun v hv => ?_, fun r hr hs => ?_, .inl ⟨hn, fun row ha => ?_⟩⟩
  · rw [successes_length_of_no_active hw hn, hlen, List.length_append, List.length_singleton]
  · rcases List.mem_append.1 hv with hv | hv
    · obtain ⟨r, hr, hid, hs⟩ := h.succeeded v hv
      exact ⟨r, hkept r hr hs, hid, hs⟩
    · rw [List.mem_singleton.1 hv]
      exact hnew
  · rcases hown r hr hs with hr | hid
    · obtain ⟨v, hv, he⟩ := h.owned r hr hs
      exact ⟨v, List.mem_append_left _ hv, he⟩
    · exact ⟨u, by simp, hid.symm⟩
  · rcases h.next with ⟨-, hdone⟩ | ⟨row', v, rest', ha', hrest, -, -, hid, -, -⟩
    · obtain ⟨v, hv, he⟩ := hdone row ha
      exact ⟨v, List.mem_append_left _ hv, he⟩
    · cases hrest
      cases ha.symm.trans ha'
      exact ⟨u, by simp, hid.symm⟩

end Units

theorem mem_updateRows {id : String} {f : HistoryRow → HistoryRow} {rows : List HistoryRow} {r : HistoryRow} :
    r ∈ updateRows id f rows ↔
      (∃ x ∈ rows, isActiveRow id x = true ∧ f x = r) ∨ r ∈ rows ∧ isActiveRow id r = false := by
  unfold updateRows
  rw [List.mem_map]
  constructor
  · rintro ⟨x, hx, rfl⟩
    cases ha : isActiveRow id x with
    | true => exact .inl ⟨x, hx, ha, rfl⟩
    | false => exact .inr ⟨hx, ha⟩
  · rintro (⟨x, hx, ha, rfl⟩ | ⟨hr, ha⟩)
    · exact ⟨x, hx, by rw [if_pos ha]⟩
    · exact ⟨r, hr, by simp [ha]⟩

/-- The history once the next unit has been admitted to `attempt`. -/
structure Entered (u : CapturedUnit) (attempt : Option Int) (rows rows' : List HistoryRow) : Prop where
  wellFormed : WellFormed rows'
  active : ∃ r ∈ rows', isActiveRow u.id r = true ∧ r.attempt = attempt
  successes : ∀ r, r.isSuccess = true → (r ∈ rows' ↔ r ∈ rows)

theorem Entered.begun {u : CapturedUnit} {rows : List HistoryRow} {row : HistoryRow}
    (hw : WellFormed (rows ++ [row])) (hid : row.migrationId = u.id) (hact : row.isActive = true) :
    Entered u row.attempt rows (rows ++ [row]) := by
  refine ⟨hw, ⟨row, by simp, by simp [isActiveRow, hid, hact], rfl⟩, fun r hs => ?_⟩
  rw [List.mem_append, List.mem_singleton, or_iff_left_iff_imp]
  rintro rfl
  rw [isSuccess_eq_not_isActive (hw.valid r (by simp)), hact] at hs
  cases hs

theorem Entered.readmitted {u : CapturedUnit} {rows : List HistoryRow} {row : HistoryRow}
    {f : HistoryRow → HistoryRow} (hw : WellFormed (updateRows u.id f rows)) (hrow : row ∈ rows)
    (hid : row.migrationId = u.id) (hact : row.isActive = true) (hf : ∀ r, (f r).status = r.status)
    (hm : ∀ r, (f r).migrationId = r.migrationId) : Entered u (f row).attempt rows (updateRows u.id f rows) := by
  have ha : isActiveRow u.id row = true := by simp [isActiveRow, hid, hact]
  have hfa (r : HistoryRow) : (f r).isSuccess = r.isSuccess := by rw [HistoryRow.isSuccess, hf]; rfl
  refine ⟨hw, ⟨f row, mem_updateRows.2 (.inl ⟨row, hrow, ha, rfl⟩), ?_, rfl⟩, fun r hs => ?_⟩
  · rw [← ha, isActiveRow, isActiveRow, hm, HistoryRow.isActive, HistoryRow.isActive, hf]
  · have hr : isActiveRow u.id r = false := by
      by_contra hn
      rw [not_success_of_active (by simpa using hn)] at hs
      cases hs
    rw [mem_updateRows]
    refine ⟨?_, fun h => .inr ⟨h, hr⟩⟩
    rintro (⟨x, -, hx, rfl⟩ | ⟨h, -⟩)
    · rw [hfa, not_success_of_active hx] at hs
      cases hs
    · exact h

section Completion

variable {units done rest : List CapturedUnit} {recover : Option String} {active : Option HistoryRow}
  {rows rows' : List HistoryRow} {u : CapturedUnit} {attempt : Option Int}
  (h : Ready units recover active done (u :: rest) rows) (he : Entered u attempt rows rows')

include h he

theorem Ready.length_entered : rows'.length = done.length + 1 := by
  obtain ⟨r, hr, ha, -⟩ := he.active
  have hs := successes_length_of_active he.wellFormed hr (Bool.and_eq_true_iff.1 ha).2
  have hp : (rows'.filter (·.isSuccess)).Perm (rows.filter (·.isSuccess)) := by
    refine (List.perm_ext_iff_of_nodup ?_ ?_).2 fun x => ?_
    · exact (List.Nodup.of_map _ he.wellFormed.ids).filter _
    · exact (List.Nodup.of_map _ h.wellFormed.ids).filter _
    · simp only [List.mem_filter]
      exact and_congr_left fun hx => he.successes x hx
  rw [← hs, hp.length_eq, h.count]

theorem Ready.complete {f : HistoryRow → HistoryRow} (hw : WellFormed (updateRows u.id f rows'))
    (hf : ∀ r, (f r).isSuccess = true) (hm : ∀ r, (f r).migrationId = r.migrationId) :
    Ready units recover active (done ++ [u]) rest (updateRows u.id f rows') := by
  obtain ⟨a, ha, hact, -⟩ := he.active
  obtain ⟨hid, hact'⟩ := Bool.and_eq_true_iff.1 hact
  have hkept {r : HistoryRow} (hr : r ∈ rows') (hs : r.isSuccess = true) : r ∈ updateRows u.id f rows' := by
    refine mem_updateRows.2 (.inr ⟨hr, ?_⟩)
    by_contra hn
    rw [not_success_of_active (by simpa using hn)] at hs
    cases hs
  have hsucc {r : HistoryRow} (hr : r ∈ updateRows u.id f rows') : r.isSuccess = true := by
    rcases mem_updateRows.1 hr with ⟨x, -, -, rfl⟩ | ⟨hr, hn⟩
    · exact hf x
    · rw [isSuccess_eq_not_isActive (he.wellFormed.valid r hr), Bool.not_eq_true']
      by_contra hra
      rw [active_unique he.wellFormed hr ha (by simpa using hra) hact', hact] at hn
      cases hn
  refine h.advance hw ?_ (fun r hr => ?_) ⟨f a, mem_updateRows.2 (.inl ⟨a, ha, hact, rfl⟩), ?_, hf a⟩ ?_ ?_
  · rw [updateRows, List.length_map]
    exact h.length_entered he
  · have hs := hsucc hr
    rw [isSuccess_eq_not_isActive (hw.valid r hr)] at hs
    simpa using hs
  · rw [hm]
    simpa using hid
  · exact fun r hr hs => hkept ((he.successes r hs).2 hr) hs
  · intro r hr hs
    rcases mem_updateRows.1 hr with ⟨x, -, hx, rfl⟩ | ⟨hr, -⟩
    · rw [hm]
      exact .inr (by simpa using (Bool.and_eq_true_iff.1 hx).1)
    · exact .inl ((he.successes r hs).1 hr)

end Completion

end Migr8.Plans
