import Migr8.StateValidate
import Migr8.Database
import Mathlib.Data.List.Perm.Basic

namespace Migr8.Shape

open Errors Model StateValidate Database

variable {ε α β : Type}

theorem bind_ok_iff {x : Except ε α} {f : α → Except ε β} {b : β} :
    (x >>= f) = .ok b ↔ ∃ a, x = .ok a ∧ f a = .ok b := by
  cases x with
  | error e => exact ⟨nofun, fun h => by obtain ⟨a, h, -⟩ := h; cases h⟩
  | ok a =>
      constructor
      · intro h
        exact ⟨a, rfl, h⟩
      · rintro ⟨a', ⟨⟩, h⟩
        exact h

theorem seq_ok_iff {x : Except ε Unit} {y : Except ε Unit} :
    (do x; y) = .ok () ↔ x = .ok () ∧ y = .ok () := by
  rw [bind_ok_iff]
  exact ⟨fun ⟨_, hx, hy⟩ => ⟨hx, hy⟩, fun ⟨hx, hy⟩ => ⟨(), hx, hy⟩⟩

def positions (n : Nat) : List Int := (List.range' 1 n).map Int.ofNat

/-- What `validate_snapshot_shape` demands of the rows, in whatever order the
table holds them. -/
structure WellFormed (rows : List HistoryRow) : Prop where
  ids : (rows.map (·.migrationId)).Nodup
  seqs : (rows.map (·.seq)).Perm (positions rows.length)
  valid : ∀ r ∈ rows, validateRow r = .ok ()
  active : ∀ r ∈ rows, r.isActive = true → r.seq = rows.length

def progressKey (p : ProgressRow) : String × String := (p.migrationId, p.progKey)

/-- What it demands of the progress rows. -/
structure ProgressOk (rows : List HistoryRow) (progress : List ProgressRow) : Prop where
  keys : (progress.map progressKey).Nodup
  values : ∀ p ∈ progress, p.progValue ≠ ""
  owners : ∀ p ∈ progress, ∃ r ∈ rows, r.migrationId = p.migrationId ∧ r.isActive = true

theorem WellFormed.perm {rows rows' : List HistoryRow} (h : WellFormed rows) (hp : rows.Perm rows') :
    WellFormed rows' := by
  refine ⟨(hp.map _).nodup_iff.1 h.ids, ?_, ?_, ?_⟩
  · rw [← hp.length_eq]
    exact (hp.map _).symm.trans h.seqs
  · intro r hr
    exact h.valid r (hp.mem_iff.2 hr)
  · intro r hr ha
    rw [← hp.length_eq]
    exact h.active r (hp.mem_iff.2 hr) ha

theorem ProgressOk.perm {rows rows' : List HistoryRow} {progress progress' : List ProgressRow}
    (h : ProgressOk rows progress) (hr : rows.Perm rows') (hp : progress.Perm progress') :
    ProgressOk rows' progress' := by
  refine ⟨(hp.map _).nodup_iff.1 h.keys, fun p hm => h.values p (hp.mem_iff.2 hm), fun p hm => ?_⟩
  obtain ⟨r, hr', ho⟩ := h.owners p (hp.mem_iff.2 hm)
  exact ⟨r, hr.mem_iff.1 hr', ho⟩

theorem sortBySeq_perm (rows : List HistoryRow) : (sortBySeq rows).Perm rows := List.perm_insertionSort _ _

theorem mem_positions {n : Nat} {i : Int} : i ∈ positions n ↔ 1 ≤ i ∧ i ≤ n := by
  simp only [positions, List.mem_map, List.mem_range'_1]
  constructor
  · rintro ⟨k, hk, rfl⟩
    simp only [Int.ofNat_eq_natCast]
    omega
  · intro h
    exact ⟨i.toNat, by omega, by simp only [Int.ofNat_eq_natCast]; omega⟩

theorem positions_nodup (n : Nat) : (positions n).Nodup :=
  List.Nodup.map (fun _ _ h => Int.ofNat.inj h) List.nodup_range'

theorem positions_sorted (n : Nat) : (positions n).Pairwise (· ≤ ·) := by
  refine List.Pairwise.map _ ?_ (List.pairwise_le_range' 1)
  intro a b h
  simpa using h

theorem positions_succ (n : Nat) : positions (n + 1) = positions n ++ [(n : Int) + 1] := by
  simp [positions, List.range'_concat, Int.add_comm]

theorem checkConsecutive_ok_iff (i : Nat) (rows : List HistoryRow) :
    checkConsecutive i rows = .ok () ↔ rows.map (·.seq) = (List.range' i rows.length).map Int.ofNat := by
  induction rows generalizing i with
  | nil => simp [checkConsecutive]
  | cons row rows ih =>
      simp only [checkConsecutive, List.map_cons, List.length_cons, List.range'_succ, List.cons.injEq]
      split
      · next h => exact ⟨nofun, fun hr => absurd hr.1 h⟩
      · next h => exact (ih (i + 1)).trans ⟨fun hr => ⟨by simpa using h, hr⟩, fun hr => hr.2⟩

theorem checkIdentities_ok_iff (seen rows : List HistoryRow) :
    checkIdentities seen rows = .ok () ↔
      (∀ r ∈ rows, 1 ≤ r.seq) ∧ (rows.map (·.seq)).Nodup ∧ (rows.map (·.migrationId)).Nodup ∧
        ∀ r ∈ rows, ∀ x ∈ seen, x.seq ≠ r.seq ∧ x.migrationId ≠ r.migrationId := by
  induction rows generalizing seen with
  | nil => simp [checkIdentities]
  | cons row rows ih =>
      simp only [checkIdentities, List.map_cons, List.nodup_cons, List.forall_mem_cons]
      by_cases hpos : row.seq < 1
      · rw [if_pos hpos]
        exact ⟨nofun, fun h => by omega⟩
      · rw [if_neg hpos]
        cases hf : seen.find? (fun r => r.seq == row.seq) with
        | some other =>
            have hm := List.mem_of_find?_eq_some hf
            have hs := List.find?_some hf
            refine ⟨nofun, fun h => ?_⟩
            exact absurd (beq_iff_eq.1 hs) (h.2.2.2.1 other hm).1
        | none =>
            have hs : ∀ x ∈ seen, x.seq ≠ row.seq := by simpa using hf
            dsimp only
            split
            · next hany =>
                obtain ⟨x, hx, he⟩ := List.any_eq_true.1 hany
                refine ⟨nofun, fun h => ?_⟩
                exact absurd (beq_iff_eq.1 he) (h.2.2.2.1 x hx).2
            · next hany =>
                have hi : ∀ x ∈ seen, x.migrationId ≠ row.migrationId := by simpa using hany
                rw [ih (seen ++ [row])]
                constructor
                · rintro ⟨h1, h2, h3, h4⟩
                  have hrow (r : HistoryRow) (hr : r ∈ rows) := h4 r hr row (by simp)
                  refine ⟨⟨by omega, h1⟩, ⟨?_, h2⟩, ⟨?_, h3⟩, fun x hx => ⟨hs x hx, hi x hx⟩, ?_⟩
                  · rintro hm
                    obtain ⟨r, hr, he⟩ := List.mem_map.1 hm
                    exact (hrow r hr).1 he.symm
                  · rintro hm
                    obtain ⟨r, hr, he⟩ := List.mem_map.1 hm
                    exact (hrow r hr).2 he.symm
                  · exact fun r hr x hx => h4 r hr x (List.mem_append_left _ hx)
                · rintro ⟨⟨-, h1⟩, ⟨hn, h2⟩, ⟨hn', h3⟩, -, h4⟩
                  refine ⟨h1, h2, h3, fun r hr x hx => ?_⟩
                  rcases List.mem_append.1 hx with hx | hx
                  · exact h4 r hr x hx
                  · cases List.mem_singleton.1 hx
                    exact ⟨fun he => hn (List.mem_map.2 ⟨r, hr, he.symm⟩),
                      fun he => hn' (List.mem_map.2 ⟨r, hr, he.symm⟩)⟩

theorem validateRows_ok_iff (rows : List HistoryRow) :
    validateRows rows = .ok () ↔ ∀ r ∈ rows, validateRow r = .ok () := by
  induction rows with
  | nil => simp [validateRows]
  | cons row rows ih => simp only [validateRows, seq_ok_iff, ih, List.forall_mem_cons]

/-- A row is ACTIVE or SUCCESS, never both. -/
theorem isSuccess_eq_not_isActive {r : HistoryRow} (h : validateRow r = .ok ()) : r.isSuccess = !r.isActive := by
  unfold validateRow at h
  split at h
  · cases h
  · next hs =>
      have hs : r.isActive = false → r.isSuccess = true := by simpa using hs
      unfold HistoryRow.isActive HistoryRow.isSuccess at hs ⊢
      by_cases ha : r.status = Status.active.value
      · rw [ha]
        decide
      · have hb : r.status = Status.success.value := by simpa [ha] using hs
        rw [hb]
        decide

theorem filter_lengths {rows : List HistoryRow} (h : ∀ r ∈ rows, validateRow r = .ok ()) :
    (rows.filter (·.isSuccess)).length + (rows.filter (·.isActive)).length = rows.length := by
  induction rows with
  | nil => rfl
  | cons r rows ih =>
      have hr := isSuccess_eq_not_isActive (h r List.mem_cons_self)
      have ih := ih fun r hr => h r (List.mem_cons_of_mem _ hr)
      cases ha : r.isActive <;> simp [ha, hr] <;> omega

theorem checkActivePosition_ok_iff {rows : List HistoryRow} (hv : ∀ r ∈ rows, validateRow r = .ok ())
    (hs : (rows.map (·.seq)).Nodup) :
    checkActivePosition rows = .ok () ↔ ∀ r ∈ rows, r.isActive = true → r.seq = rows.length := by
  have hlen := filter_lengths hv
  have hmem (r : HistoryRow) : r ∈ rows.filter (·.isActive) ↔ r ∈ rows ∧ r.isActive = true := List.mem_filter
  unfold checkActivePosition
  rcases hf : rows.filter (·.isActive) with _ | ⟨a, _ | ⟨b, rest⟩⟩ <;> simp only [hf] at hlen hmem ⊢
  · refine ⟨fun _ r hr ha => ?_, fun _ => trivial⟩
    exact absurd ((hmem r).2 ⟨hr, ha⟩) (by simp)
  · simp only [List.length_singleton] at hlen
    have ha := (hmem a).1 (List.mem_singleton_self a)
    split
    · next hne =>
        refine ⟨nofun, fun h => absurd (h a ha.1 ha.2) ?_⟩
        omega
    · next he =>
        refine ⟨fun _ r hr har => ?_, fun _ => rfl⟩
        obtain rfl := List.mem_singleton.1 ((hmem r).2 ⟨hr, har⟩)
        omega
  · refine ⟨nofun, fun h => ?_⟩
    have ha := (hmem a).1 (by simp)
    have hb := (hmem b).1 (by simp)
    have hn : ((a :: b :: rest).map (·.seq)).Nodup := by
      rw [← hf]
      exact hs.sublist (List.Sublist.map _ List.filter_sublist)
    have he : a.seq = b.seq := (h a ha.1 ha.2).trans (h b hb.1 hb.2).symm
    simp [he] at hn

theorem eq_of_id {rows : List HistoryRow} (h : (rows.map (·.migrationId)).Nodup) {a b : HistoryRow}
    (ha : a ∈ rows) (hb : b ∈ rows) (he : a.migrationId = b.migrationId) : a = b :=
  List.inj_on_of_nodup_map h ha hb he

theorem find_owner {rows : List HistoryRow} (h : (rows.map (·.migrationId)).Nodup) {r : HistoryRow} {id : String}
    (hr : r ∈ rows) (hi : r.migrationId = id) : rows.reverse.find? (fun r => r.migrationId == id) = some r := by
  cases hf : rows.reverse.find? (fun r => r.migrationId == id) with
  | none =>
      have hn := List.find?_eq_none.1 hf r (by simpa using hr)
      simp [hi] at hn
  | some x =>
      have hx := List.mem_of_find?_eq_some hf
      have he := List.find?_some hf
      rw [eq_of_id h (by simpa using hx) hr ((beq_iff_eq.1 he).trans hi.symm)]

theorem progressOk_cons_iff {rows : List HistoryRow} {p : ProgressRow} {ps : List ProgressRow} :
    ProgressOk rows (p :: ps) ↔ progressKey p ∉ ps.map progressKey ∧ p.progValue ≠ "" ∧
      (∃ r ∈ rows, r.migrationId = p.migrationId ∧ r.isActive = true) ∧ ProgressOk rows ps := by
  constructor
  · intro h
    have hk := List.nodup_cons.1 h.keys
    refine ⟨hk.1, h.values p List.mem_cons_self, h.owners p List.mem_cons_self, hk.2, ?_, ?_⟩
    · exact fun q hq => h.values q (List.mem_cons_of_mem _ hq)
    · exact fun q hq => h.owners q (List.mem_cons_of_mem _ hq)
  · rintro ⟨hk, hv, ho, h⟩
    exact ⟨List.nodup_cons.2 ⟨hk, h.keys⟩, List.forall_mem_cons.2 ⟨hv, h.values⟩,
      List.forall_mem_cons.2 ⟨ho, h.owners⟩⟩

theorem checkProgress_ok_iff {rows : List HistoryRow} (hi : (rows.map (·.migrationId)).Nodup)
    (hv : ∀ r ∈ rows, validateRow r = .ok ()) (seen : List (String × String)) (progress : List ProgressRow) :
    checkProgress rows seen progress = .ok () ↔
      ProgressOk rows progress ∧ ∀ p ∈ progress, progressKey p ∉ seen := by
  induction progress generalizing seen with
  | nil => exact ⟨fun _ => ⟨⟨List.nodup_nil, nofun, nofun⟩, nofun⟩, fun _ => rfl⟩
  | cons p progress ih =>
      simp only [checkProgress]
      split
      · next hs => exact ⟨nofun, fun h => absurd (List.contains_iff_mem.1 hs) (h.2 p List.mem_cons_self)⟩
      · next hs =>
          have hs : progressKey p ∉ seen := fun h => hs (List.contains_iff_mem.2 h)
          split
          · next hf =>
              refine ⟨nofun, fun h => ?_⟩
              obtain ⟨r, hr, he, -⟩ := h.1.owners p List.mem_cons_self
              rw [find_owner hi hr he] at hf
              cases hf
          · next owner hf =>
              have hm : owner ∈ rows := by simpa using List.mem_of_find?_eq_some hf
              have ho : owner.migrationId = p.migrationId := by simpa using List.find?_some hf
              have hsa := isSuccess_eq_not_isActive (hv owner hm)
              split
              · next hsucc =>
                  refine ⟨nofun, fun h => ?_⟩
                  obtain ⟨r, hr, he, ha⟩ := h.1.owners p List.mem_cons_self
                  have hn : owner.isActive = false := by simpa [hsucc] using hsa.symm
                  rw [eq_of_id hi hr hm (he.trans ho.symm), hn] at ha
                  cases ha
              · next hsucc =>
                  have ha : owner.isActive = true := by simpa [hsucc] using hsa.symm
                  split
                  · next hval => exact ⟨nofun, fun h => absurd hval (h.1.values p List.mem_cons_self)⟩
                  · next hval =>
                      rw [ih, progressOk_cons_iff]
                      simp only [List.mem_cons, not_or, List.mem_map, not_exists, not_and]
                      constructor
                      · rintro ⟨hp, hk⟩
                        refine ⟨⟨fun q hq he => (hk q hq).1 he, hval, ⟨owner, hm, ho, ha⟩, hp⟩, ?_⟩
                        rintro q (rfl | hq)
                        · exact hs
                        · exact (hk q hq).2
                      · rintro ⟨⟨hk, -, -, hp⟩, hs⟩
                        exact ⟨hp, fun q hq => ⟨fun he => hk q hq he, hs q (.inr hq)⟩⟩

def LayoutOk (marker : Option MetaRow) : Prop := ∀ m, marker = some m → m.layoutVersion = layoutVersion

theorem checkLayout_ok_iff (marker : Option MetaRow) : checkLayout marker = .ok () ↔ LayoutOk marker := by
  cases marker with
  | none => exact ⟨fun _ => nofun, fun _ => rfl⟩
  | some m =>
      simp only [checkLayout, LayoutOk, Option.some.injEq, forall_eq']
      split
      · next h => exact ⟨nofun, fun he => absurd he h⟩
      · next h => exact ⟨fun _ => by simpa using h, fun _ => rfl⟩

theorem map_seq_eq_iff {rows : List HistoryRow} :
    (sortBySeq rows).map (·.seq) = positions (sortBySeq rows).length ↔
    (rows.map (·.seq)).Perm (positions rows.length) := by
  have hlen : (sortBySeq rows).length = rows.length := (sortBySeq_perm rows).length_eq
  have hp : ((sortBySeq rows).map (·.seq)).Perm (rows.map (·.seq)) := (sortBySeq_perm rows).map _
  rw [hlen]
  constructor
  · intro h
    rw [← h]
    exact hp.symm
  · intro h
    have hsorted : ((sortBySeq rows).map (·.seq)).Pairwise (· ≤ ·) :=
      List.Pairwise.map _ (fun _ _ h => h) (List.pairwise_insertionSort _ rows)
    exact (hp.trans h).eq_of_pairwise' hsorted (positions_sorted _)

/-- The check accepts exactly the well-formed snapshots. -/
theorem validateSnapshotShape_ok_iff (snapshot : Snapshot) :
    validateSnapshotShape snapshot = .ok () ↔
      LayoutOk snapshot.metaRow ∧ WellFormed snapshot.history ∧ ProgressOk snapshot.history snapshot.progress := by
  have hp := sortBySeq_perm snapshot.history
  unfold validateSnapshotShape
  simp only [seq_ok_iff, checkLayout_ok_iff, checkIdentities_ok_iff, checkConsecutive_ok_iff, validateRows_ok_iff]
  refine and_congr_right fun _ => ?_
  constructor
  · rintro ⟨⟨-, hs, hi, -⟩, hc, hv, ha, hpr⟩
    rw [checkActivePosition_ok_iff hv hs] at ha
    have hw : WellFormed (sortBySeq snapshot.history) := ⟨hi, by rw [hc]; exact List.Perm.refl _, hv, ha⟩
    refine ⟨hw.perm hp, ?_⟩
    exact ((checkProgress_ok_iff hi hv [] _).1 hpr).1.perm hp (List.Perm.refl _)
  · rintro ⟨hw, hpr⟩
    have hw' := hw.perm hp.symm
    have hc := map_seq_eq_iff.2 hw.seqs
    have hs : ((sortBySeq snapshot.history).map (·.seq)).Nodup := by
      rw [hc]
      exact positions_nodup _
    refine ⟨⟨fun r hr => ?_, hs, hw'.ids, by simp⟩, hc, hw'.valid, ?_, ?_⟩
    · have hm : r.seq ∈ positions (sortBySeq snapshot.history).length := hc ▸ List.mem_map_of_mem hr
      exact (mem_positions.1 hm).1
    · exact (checkActivePosition_ok_iff hw'.valid hs).2 hw'.active
    · exact (checkProgress_ok_iff hw'.ids hw'.valid [] _).2 ⟨hpr.perm hp.symm (List.Perm.refl _), by simp⟩

end Migr8.Shape
