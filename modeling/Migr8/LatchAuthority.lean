import Migr8.DurableHistory

namespace Migr8.LatchAuthority

open Errors Model Latch Driver Database World Adapters Context Engine StateValidate Rules Discipline RunObedience
open Forward Frames DurableHistory Lib.Process
open Lib.Interaction (Act Exchange trace result final chain_echo trace_echo)

variable {input : Input} {os : List Outcome} {s : Session} {x : Except Exc Report × Local}

theorem run_safe (input : Input) : Safe input.adapter (fun _ => True) (Engine.run input) (fun r l c =>
    Later c l.latch ∧ ∀ e, l.latch.error = some e → exitOf (r, l) = e.exitCode) {} RunLatch.fresh :=
  Safe.run (fun _ => trivial) RunLatch.fresh (Later.refl _)

/-- Every request of a run is made as the latch allows. -/
theorem run_orderly {y : Exchange Request Outcome Session}
    (hy : y ∈ trace (serve input.adapter) os (Engine.run input {}) s) :
    ∃ c, Orderly input.adapter (fun _ => True) y.request c := by
  obtain ⟨pre, post, hsplit⟩ := List.append_of_mem hy
  exact ⟨_, trace_echo (run_safe input) os s hsplit⟩

/-- A latch once seen set is the latch the run ends with. -/
theorem run_latch (hx : result (serve input.adapter) os (Engine.run input {}) s = some x)
    {y : Exchange Request Outcome Session} (hy : y ∈ trace (serve input.adapter) os (Engine.run input {}) s)
    (hl : y.request.state.latch.state ≠ .open) : x.2.latch = y.request.state.latch := by
  have hw : Lib.Interaction.wp _ _ (fun q c => Later c q.state.latch) _ (Engine.run input {}) RunLatch.fresh :=
    Lib.Interaction.wp_weaken (Lib.Interaction.wp_mono (run_safe input) fun x c h => h.1) (fun _ _ _ h => h)
      fun _ _ h => h.later
  exact (chain_echo (T := Later) (v := fun q => q.state.latch) (f := fun x => x.2.latch)
    (fun _ _ _ => Later.trans) hw os s hx).2 y hy hl

/-- The exit code is that of the latched error. -/
theorem run_exit (hx : result (serve input.adapter) os (Engine.run input {}) s = some x) {e : Migr8Error}
    (he : x.2.latch.error = some e) : exitOf x = e.exitCode :=
  (Lib.Interaction.result_echo (run_safe input) os s hx).2 e he

theorem move_stay {recover : Option String} {op : Op} {rows rows' : List HistoryRow} (h : Move recover op rows rows')
    (hn : cleanup op = true) : rows' = rows := by
  cases h with
  | stay => rfl
  | succeed i now hop hs => rw [hop] at hn; cases hn
  | begun i now hop hs ha hno => rw [hop] at hn; cases hn
  | readmitted id fingerprint language runner now hop hsrc => rw [hop] at hn; cases hn
  | completed id toolVersion now hop => rw [hop] at hn; cases hn

/-- Only the commit of a completion takes the ACTIVE mark from a row. -/
theorem move_active {recover : Option String} {op : Op} {rows rows' : List HistoryRow} (h : Move recover op rows rows')
    {i : Nat} {r : HistoryRow} (hr : rows[i]? = some r) (ha : r.isActive = true) :
    (∃ r', rows'[i]? = some r' ∧ r'.isActive = true) ∨ op = .commit .restartableCompletion := by
  cases h with
  | stay => exact .inl ⟨r, hr, ha⟩
  | succeed j now hop hs => exact .inl ⟨r, by rw [List.getElem?_append_left (List.getElem?_eq_some_iff.1 hr).1, hr], ha⟩
  | begun j now hop hs hat hno =>
      exact .inl ⟨r, by rw [List.getElem?_append_left (List.getElem?_eq_some_iff.1 hr).1, hr], ha⟩
  | readmitted id fingerprint language runner now hop hsrc =>
      refine .inl ⟨_, getElem?_updateRows hr, ?_⟩
      split
      · exact ha
      · exact ha
  | completed id toolVersion now hop => exact .inr hop

/-- What the latch decides from the first request that shows it set. -/
structure Authority (input : Input) (x : Except Exc Report × Local) (y : Exchange Request Outcome Session) : Prop where
  kept : x.2.latch = y.request.state.latch
  exit : y.request.state.latch.state = .unknownOutcome ∧ exitOf x = .unknownOutcome ∨
    y.request.state.latch.state = .contractViolation ∧ exitOf x = .contractViolation ∨
    y.request.state.latch.state = .batchFailed ∧ exitOf x = .migrationFailed
  submits : cleanup y.request.op = true
  unwritten : (∀ i, y.request.op ≠ .insertHistory i) ∧ ∀ id version, y.request.op ≠ .completeActive id version
  uninvoked : ∀ id attempt, y.request.op ≠ .invoke id attempt
  history : (serve input.adapter y.request y.outcome y.before).2.db.history = y.before.db.history

/-- Whatever the code of the migrations does, the first latched error is kept, it
decides the exit code, and the history stays as it is; before that, a row is
ACTIVE until the commit of its completion. Two runs in which the same latch is
seen set end with the same code. -/
theorem latch_authority (hx : result (serve input.adapter) os (Engine.run input {}) s.afresh = some x) :
    (∀ e, x.2.latch.error = some e → exitOf x = e.exitCode) ∧
    (∀ y ∈ trace (serve input.adapter) os (Engine.run input {}) s.afresh,
      (y.request.state.latch.state ≠ .open → Authority input x y) ∧
      ∀ (i : Nat) r, y.before.db.history[i]? = some r → r.isActive = true →
        (∃ r', (serve input.adapter y.request y.outcome y.before).2.db.history[i]? = some r' ∧ r'.isActive = true) ∨
          y.request.op = .commit .restartableCompletion ∧ y.request.state.latch.state = .open) ∧
    ∀ (input' : Input) (os' : List Outcome) (s' : Session) (x' : Except Exc Report × Local),
      result (serve input'.adapter) os' (Engine.run input' {}) s'.afresh = some x' →
      ∀ y ∈ trace (serve input.adapter) os (Engine.run input {}) s.afresh,
      ∀ y' ∈ trace (serve input'.adapter) os' (Engine.run input' {}) s'.afresh,
        y.request.state.latch.state ≠ .open → y'.request.state.latch = y.request.state.latch →
        x'.2.latch = x.2.latch ∧ exitOf x' = exitOf x := by
  refine ⟨fun e => run_exit hx, fun y hy => ⟨fun hl => ?_, fun i r hr ha => ?_⟩,
    fun input' os' s' x' hx' y hy y' hy' hl he => ?_⟩
  · obtain ⟨c, ho⟩ := run_orderly hy
    have hlabel := (run_label (p := False) (s := s) input os False.elim).1 y hy
    have hkept := run_latch hx hy hl
    have hclean := ho.sealed hl
    have herr : ∃ e, x.2.latch.error = some e := by
      rw [hkept, ← Option.ne_none_iff_exists']
      exact fun h => hl ((RunLatch.error_eq_none_iff _).1 h)
    obtain ⟨e, he⟩ := herr
    refine ⟨hkept, ?_, hclean, ⟨fun i h => ?_, fun id v h => ?_⟩, fun id a h => ?_,
      move_stay (hlabel.move y.outcome) hclean⟩
    · rw [run_exit hx he, ← hkept]
      exact RunLatch.exitCode_of_error he
    all_goals
      rw [h] at hclean
      cases hclean
  · have hlabel := (run_label (p := False) (s := s) input os False.elim).1 y hy
    refine (move_active (hlabel.move y.outcome) hr ha).imp id fun hop => ⟨hop, ?_⟩
    by_contra hl
    obtain ⟨c, ho⟩ := run_orderly hy
    have hclean := ho.sealed hl
    rw [hop] at hclean
    cases hclean
  · have hk := run_latch hx hy hl
    have hk' := run_latch hx' hy' (he ▸ hl)
    have hsame : x'.2.latch = x.2.latch := by rw [hk, hk', he]
    obtain ⟨e, herr⟩ := Option.ne_none_iff_exists'.1 fun h => hl (hk ▸ (RunLatch.error_eq_none_iff _).1 h)
    exact ⟨hsame, by rw [run_exit hx herr, run_exit hx' (hsame ▸ herr)]⟩

section Example

def lostReply : List Outcome := answers 61 1 ++ { fault := .interrupted, applied := true } :: answers 20 1

def stubborn : Input :=
  threeUnits false (.call (.execute "more") fun _ => .call (.progressSet "done" "2") fun _ => .ret .nothing)

def replacing : Input := threeUnits false (.raise (.plain "builtins.KeyError"))

def lostRun (input : Input) : Act Request Reply (Except Exc Report × Local) := Engine.run input {}

def latched (input : Input) : Option (Exchange Request Outcome Session) :=
  (trace (serve .sqlite) lostReply (lostRun input) (newNamespace .sqlite).afresh).find?
    fun y => y.request.state.latch.state ≠ .open

theorem latch_authority_stubborn : ∃ x x' y,
    result (serve .sqlite) lostReply (lostRun stubborn) (newNamespace .sqlite).afresh = some x ∧
    result (serve .sqlite) lostReply (lostRun replacing) (newNamespace .sqlite).afresh = some x' ∧
    y.request.state.latch.state = .unknownOutcome ∧ Authority stubborn x y ∧ exitOf x' = exitOf x := by
  have hdone (input : Input) (h : input = stubborn ∨ input = replacing) :
      (result (serve .sqlite) lostReply (lostRun input) (newNamespace .sqlite).afresh).isSome = true := by
    obtain rfl | rfl := h <;> decide +kernel
  obtain ⟨x, hx⟩ := Option.isSome_iff_exists.1 (hdone stubborn (.inl rfl))
  obtain ⟨x', hx'⟩ := Option.isSome_iff_exists.1 (hdone replacing (.inr rfl))
  have hset : (latched stubborn).map (·.request.state.latch.state) = some .unknownOutcome := by decide +kernel
  have hsame : (latched replacing).map (·.request.state.latch) = (latched stubborn).map (·.request.state.latch) := by
    decide +kernel
  obtain ⟨y, hy, hl⟩ := Option.map_eq_some_iff.1 hset
  rw [hy, Option.map_some] at hsame
  obtain ⟨y', hy', hl'⟩ := Option.map_eq_some_iff.1 hsame
  have hne : y.request.state.latch.state ≠ .open := by rw [hl]; decide
  have hrun : result (serve stubborn.adapter) lostReply (Engine.run stubborn {}) (newNamespace .sqlite).afresh =
      some x := hx
  have hauthority := latch_authority hrun
  refine ⟨x, x', y, hx, hx', hl, (hauthority.2.1 y (List.mem_of_find?_eq_some hy)).1 hne, ?_⟩
  exact (hauthority.2.2 replacing lostReply (newNamespace .sqlite) x' hx' y (List.mem_of_find?_eq_some hy) y'
    (List.mem_of_find?_eq_some hy') hne hl').2

end Example

end Migr8.LatchAuthority
